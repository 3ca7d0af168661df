import MemberAccess.ArrayAccess
import MemberAccess.Calling
import MemberAccess.Code.Check

/-!
Running routines. A fault of the machine itself (a stack that is too short, an operand of the wrong
form) is told apart from the failure of an instruction until the routine returns; code that passed
the check cannot run the stack empty, miss an operand or leave the wrong result.
-/

namespace MemberAccess.Code

/-- What a routine is called with. -/
inductive Argument
  | value (v : Value)
  | array (items : Array Value)

def Argument.kind : Argument → ArgumentKind
  | value _ => .object
  | array _ => .objectArray

/-- A stack entry. -/
inductive Operand
  | slot (s : Slot)
  /-- An array argument, which becomes an array of the heap only when it is used as a slot. -/
  | items (a : Array Value)

structure Machine where
  /-- Top first. -/
  stack : List Operand := []
  locals : Array Slot
  result : Option Value := none

/-- What an instruction finds wrong with the state of the machine. -/
inductive Fault
  | stackUnderflow
  | argumentMissing (index : Nat)
  | localMissing (index : Nat)
  /-- A reference was needed and an unboxed value found. -/
  | notReference (kind : String)
  /-- A field instruction found an unboxed value that has no fields. -/
  | notReceiver (instr kind : String)
  /-- An instruction that the machine has no step for. -/
  | noStep (instr : String)
  | wrongShape (routine : String)
  deriving DecidableEq

def Fault.message : Fault → String
  | stackUnderflow => "evaluation stack underflow"
  | argumentMissing index => s!"argument {index} missing"
  | localMissing index => s!"local {index} missing"
  | notReference kind => s!"expected an object reference, found unboxed {kind}"
  | notReceiver instr kind => s!"{instr} on unboxed {kind}"
  | noStep instr => s!"cannot lower {instr}"
  | wrongShape routine => s!"{routine} returned the wrong shape"

inductive ExecError
  | fault (f : Fault)
  | failure (e : InvokeError)

def ExecError.toInvokeError : ExecError → InvokeError
  | fault f => .invalidProgram f.message
  | failure e => e

abbrev ExecM := Run ExecError

namespace ExecM

def fail (f : Fault) : ExecM α := throw (.fault f)

def run (x : RunM α) : ExecM α := x.mapError .failure

end ExecM

namespace Operand

def toSlot : Operand → ExecM Slot
  | slot s => pure s
  | items a => modifyGet fun h =>
    let (a, h) := h.newArray a
    (.ref (.array a), h)

end Operand

namespace Machine

def push (m : Machine) (s : Slot) : Machine :=
  { m with stack := .slot s :: m.stack }

def pop (m : Machine) : ExecM (Operand × Machine) :=
  match m with
  | ⟨o :: rest, locals, result⟩ => pure (o, ⟨rest, locals, result⟩)
  | _ => .fail .stackUnderflow

def popSlot (m : Machine) : ExecM (Slot × Machine) := do
  let (o, m) ← m.pop
  return (← o.toSlot, m)

/-- Takes a reference; an unboxed value here means that a `box` is missing. -/
def popRef (r : Registry) (m : Machine) : ExecM (Value × Machine) := do
  let (s, m) ← m.popSlot
  match s with
  | .ref v => return (v, m)
  | s => .fail (.notReference (s.kindText r))

/-- The topmost `n` operands in the order in which they were pushed, and the rest. -/
def takeOperands : Nat → List Operand → List Operand → Option (List Operand × List Operand)
  | 0, stack, taken => some (taken, stack)
  | n + 1, o :: stack, taken => takeOperands n stack (o :: taken)
  | _ + 1, [], _ => none

theorem takeOperands_append (above rest taken : List Operand) :
    takeOperands above.length (above ++ rest) taken = some (above.reverse ++ taken, rest) := by
  induction above generalizing taken with
  | nil => rfl
  | cons o above ih => simp [takeOperands, ih]

theorem takeOperands_eq_none_iff {n : Nat} {stack taken : List Operand} :
    takeOperands n stack taken = none ↔ stack.length < n := by
  induction n generalizing stack taken with
  | zero => simp [takeOperands]
  | succ n ih => cases stack <;> simp [takeOperands, ih]

/-- Takes the arguments of a call, of which the first lies deepest. -/
def popArguments (n : Nat) (m : Machine) : ExecM (Array Slot × Machine) :=
  match takeOperands n m.stack [] with
  | none => .fail .stackUnderflow
  | some (taken, rest) => do
    let slots ← taken.mapM Operand.toSlot
    return (slots.toArray, { m with stack := rest })

/-- Pushes the result of a call unless there is none. -/
def pushResult (m : Machine) (returns : Ty) (result : Slot) : Machine :=
  if returns.isVoid then m else m.push result

end Machine

def ldelemRef (r : Registry) (m : Machine) : ExecM Machine := do
  let (s, m) ← m.popSlot
  let index ← ExecM.run (.ofExcept (s.asInt32 r))
  let (o, m) ← m.pop
  match o with
  | .items a => return m.push (.ref (← ExecM.run (.ofExcept (elementAt a index))))
  | .slot s =>
    let a ← ExecM.run (.ofExcept (s.asArray r))
    return m.push (.ref (← ExecM.run (a.get index)))

def ldfld (r : Registry) (f : Field) (m : Machine) : ExecM Machine := do
  let (s, m) ← m.popSlot
  if f.isStatic then return m.push (← ExecM.run (f.load r .null))
  match s with
  | .struct t fields => return m.push (← ExecM.run (f.loadUnboxed r t fields))
  | .ref v => return m.push (← ExecM.run (f.load r v))
  | s => .fail (.notReceiver s!"ldfld {r.fieldLabel f}" (s.kindText r))

def stfld (r : Registry) (f : Field) (m : Machine) : ExecM Machine := do
  let (value, m) ← m.popSlot
  let (target, m) ← m.popSlot
  if f.isStatic then
    ExecM.run (f.store r .null value)
    return m
  match target with
  | .ref v =>
    ExecM.run (f.store r v value)
    return m
  | s => .fail (.notReceiver s!"stfld {r.fieldLabel f}" (s.kindText r))

def call (p : Program) (callee : Method) (isVirtual : Bool) (m : Machine) : ExecM Machine := do
  let (args, m) ← m.popArguments callee.params.length
  if callee.isStatic then
    return m.pushResult callee.returns (← ExecM.run (callee.call p .null args))
  let (this, m) ← m.popRef p.registry
  let result ←
    if isVirtual then ExecM.run (callee.callVirtual p this args)
    else ExecM.run (callee.call p this args)
  return m.pushResult callee.returns result

/-- Pushes an argument as it was passed. -/
def loadArgument (args : Array Argument) (index : Nat) (m : Machine) : ExecM Machine :=
  match args[index]? with
  | some (.value v) => return m.push (.ref v)
  | some (.array a) => return { m with stack := .items a :: m.stack }
  | none => .fail (.argumentMissing index)

def loadLocal (index : Nat) (m : Machine) : ExecM Machine :=
  match m.locals[index]? with
  | some s => return m.push s
  | none => .fail (.localMissing index)

def storeLocal (index : Nat) (m : Machine) : ExecM Machine := do
  let (s, ⟨stack, locals, result⟩) ← m.popSlot
  if index < locals.size then return ⟨stack, locals.setIfInBounds index s, result⟩
  else .fail (.localMissing index)

/-- The effect of an instruction without argument index, constant and local index. -/
def stepPlain (p : Program) (returnsValue : Bool) (i : Instr) (m : Machine) : ExecM Machine :=
  let r := p.registry
  match i with
  | .ldnull => return m.push .null
  | .ldelemRef => ldelemRef r m
  | .ldfld f => ldfld r f m
  | .stfld f => stfld r f m
  | .newobj c => do
    let (args, m) ← m.popArguments c.params.length
    return m.push (← ExecM.run (c.construct p args))
  | .call callee => call p callee false m
  | .callvirt callee => call p callee true m
  | .box t => do
    let (s, m) ← m.popSlot
    return m.push (.ref (← ExecM.run (s.box r t)))
  | .unboxAny t => do
    let (v, m) ← m.popRef r
    return m.push (← ExecM.run (v.unbox r t))
  | .castclass t => do
    let (v, m) ← m.popRef r
    return m.push (.ref (← ExecM.run (.ofExcept (v.cast r t))))
  | .pop => do
    let (_, m) ← m.pop
    return m
  | .ret =>
    if returnsValue then do
      let (v, m) ← m.popRef r
      return { m with result := some v }
    else return m
  | i => .fail (.noStep (i.text r))

/-- The effect of one instruction. Operands are decoded first, so that all forms of one run alike;
a load of a local is told from a store by what it takes. -/
def step (p : Program) (returnsValue : Bool) (args : Array Argument) (i : Instr) (m : Machine) :
    ExecM Machine :=
  match i.argument?, i.constant?, i.local? with
  | some index, _, _ => loadArgument args index.toNat m
  | none, some n, _ => return m.push (.int32 n.toInt32)
  | none, none, some index =>
    if i.pops = 0 then loadLocal index.toNat m else storeLocal index.toNat m
  | none, none, none => stepPlain p returnsValue i m

/-- Runs instructions one after another. -/
def exec (p : Program) (returnsValue : Bool) (args : Array Argument) :
    List Instr → Machine → ExecM Machine
  | [], m => return m
  | i :: rest, m => do
    let m ← step p returnsValue args i m
    exec p returnsValue args rest m

/-- Code runs segment by segment. -/
theorem exec_append (p : Program) (returnsValue : Bool) (args : Array Argument)
    (front rest : List Instr) (m : Machine) :
    exec p returnsValue args (front ++ rest) m =
      exec p returnsValue args front m >>= exec p returnsValue args rest := by
  induction front generalizing m with
  | nil => simp [exec]
  | cons i front ih => simp [exec, ih]

namespace Routine

/-- The first argument whose kind differs from the signature, with its position. -/
def misfit? (kinds : List ArgumentKind) (args : List Argument) :
    Option (Nat × ArgumentKind × Argument) :=
  ((kinds.zip args).zipIdx.find? fun ((k, a), _) => a.kind != k).map fun ((k, a), i) => (i, k, a)

def checkArguments (f : Routine) (args : Array Argument) : Except InvokeError Unit :=
  if args.size != f.signature.arity then
    .error (.argumentCount f.name f.signature.arity args.size)
  else
    match misfit? f.signature.params args.toList with
    | none => .ok ()
    | some (i, k, a) =>
      .error (.invalidProgram
        s!"argument {i} of {f.name} must be {k.text}, got {a.kind.text}")

def start (r : Registry) (f : Routine) : Machine :=
  { locals := f.body.locals.map r.initial }

/-- The result has to be present exactly if the signature promises one. -/
def resultOf (f : Routine) (m : Machine) : ExecM (Option Value) :=
  if m.result.isSome == f.signature.returnsValue then return m.result
  else .fail (.wrongShape f.name)

def runChecked (p : Program) (f : Routine) (args : Array Argument) : ExecM (Option Value) := do
  let m ← exec p f.signature.returnsValue args f.body.code.toList (f.start p.registry)
  f.resultOf m

/-- Runs a routine on boxed arguments, whose count and kinds have to fit the signature. -/
def run (p : Program) (f : Routine) (args : Array Argument) : RunM (Option Value) := do
  Run.ofExcept (f.checkArguments args)
  (f.runChecked p args).mapError ExecError.toInvokeError

end Routine

end MemberAccess.Code
