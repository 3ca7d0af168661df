import MemberAccess.FieldAccess

/-!
Running member bodies on typed arguments. What the bodies do is a parameter of everything in this
library that calls them: a program is a registry together with the bodies of its members.
-/

namespace MemberAccess

/-- Receiver and arguments of a running body. -/
structure Frame where
  /-- Null in static members. -/
  this : Value
  args : Array Slot

namespace Frame

def receiverObject (r : Registry) (frame : Frame) : Except InvokeError ObjectRef :=
  match frame.this with
  | .object o => .ok o
  | .null => .error (.nullReference "member body requires an instance")
  | v => .error (.invalidCast "an object instance" (v.typeName r))

def arg (frame : Frame) (index : Nat) : Except InvokeError Slot :=
  match frame.args[index]? with
  | some s => .ok s
  | none => .error (.indexOutOfRange (min index Int64.maxValue.toInt) frame.args.size)

end Frame

structure Bodies where
  method : Method → Frame → RunM Slot
  constructor : Constructor → Frame → RunM Unit

structure Program where
  registry : Registry
  bodies : Bodies

namespace Method

/-- Runs the body of this very method. -/
def call (p : Program) (m : Method) (this : Value) (args : Array Slot) : RunM Slot :=
  if args.size != m.params.length then
    throw (.argumentCount (p.registry.methodLabel m) m.params.length args.size)
  else if !m.isStatic && this.isNull then
    throw (.nullReference s!"receiver of {p.registry.methodLabel m}")
  else p.bodies.method m ⟨this, args⟩

/-- Runs the override that belongs to the runtime type of the receiver. -/
def callVirtual (p : Program) (m : Method) (this : Value) (args : Array Slot) : RunM Slot :=
  match this.runtimeType? with
  | none => throw (.nullReference s!"receiver of {p.registry.methodLabel m}")
  | some t =>
    let target := if m.isVirtual then p.registry.mostDerived m t else m
    target.call p this args

end Method

/-- Runs a constructor on a fresh instance; a value type comes back unboxed. -/
def Constructor.construct (p : Program) (c : Constructor) (args : Array Slot) : RunM Slot := do
  if args.size != c.params.length then
    throw (.argumentCount (p.registry.constructorLabel c) c.params.length args.size)
  let o ← modifyGet fun h => h.alloc c.declaring (p.registry.initialSlots c.declaring)
  p.bodies.constructor c ⟨.object o, args⟩
  if c.declaring.isValueType then return (← get).copyOut o
  else return .ref (.object o)

end MemberAccess
