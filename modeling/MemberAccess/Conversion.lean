import MemberAccess.Run

/-!
Conversions between boxed values and slots. They are exact: a value unboxes as its own type only,
and a reference passes a cast only if its runtime type derives from the target.
-/

namespace MemberAccess

/-- Null passes every cast. -/
def Value.cast (r : Registry) (v : Value) (t : Ty) : Except InvokeError Value :=
  match v.runtimeType? with
  | none => .ok .null
  | some s => if r.assignable t s then .ok v else .error (.invalidCast (r.name t) (r.name s))

namespace Value

/-- What unboxing makes of a value that is not a boxed `t`. -/
def unboxError (r : Registry) (v : Value) (t : Ty) : InvokeError :=
  if v.isNull then .nullReference s!"cannot unbox null as {r.name t}"
  else .invalidCast (r.name t) (v.typeName r)

/-- The slot of type `t` that holds the value: value types are unboxed, references cast. -/
def unbox (r : Registry) (v : Value) (t : Ty) : RunM Slot :=
  match t, v with
  | .primitive .bool, .bool b => pure (.bool b)
  | .primitive .int32, .int32 n => pure (.int32 n)
  | .primitive .int64, .int64 n => pure (.int64 n)
  | .primitive .float64, .float64 x => pure (.float64 x)
  | .primitive .char, .char c => pure (.char c)
  | .primitive p, v => throw (v.unboxError r (.primitive p))
  | .structType id, .object o =>
    if o.type = .structType id then do return (← get).copyOut o
    else throw (.invalidCast (r.name (.structType id)) (r.name o.type))
  | .structType id, v => throw (v.unboxError r (.structType id))
  | .void, v => throw (.invalidCast (r.name .void) (v.typeName r))
  | t, v => Run.ofExcept ((v.cast r t).map .ref)

end Value

namespace Slot

/-- The boxed form of a slot of type `t`; a reference stays what it is. -/
def box (r : Registry) (s : Slot) (t : Ty) : RunM Value :=
  match t, s with
  | .primitive .bool, .bool b => pure (.bool b)
  | .primitive .int32, .int32 n => pure (.int32 n)
  | .primitive .int64, .int64 n => pure (.int64 n)
  | .primitive .float64, .float64 x => pure (.float64 x)
  | .primitive .char, .char c => pure (.char c)
  | .structType id, .struct u fields =>
    if u = .structType id then modifyGet fun h =>
      let (o, h) := h.alloc u fields
      (.object o, h)
    else throw (.invalidCast (r.name (.structType id)) (r.name u))
  | t, .ref v =>
    if t.isReferenceType then pure v else throw (.invalidCast (r.name t) (v.typeName r))
  | t, s => throw (.invalidCast (r.name t) (s.kindText r))

def mismatch (r : Registry) (s : Slot) (t : Ty) : Except InvokeError α :=
  .error (.invalidCast (r.name t) (s.kindText r))

def asBool (r : Registry) : Slot → Except InvokeError Bool
  | bool b => .ok b
  | s => s.mismatch r .bool

def asInt32 (r : Registry) : Slot → Except InvokeError Int32
  | int32 n => .ok n
  | s => s.mismatch r .int32

def asInt64 (r : Registry) : Slot → Except InvokeError Int64
  | int64 n => .ok n
  | s => s.mismatch r .int64

def asFloat64 (r : Registry) : Slot → Except InvokeError Float
  | float64 x => .ok x
  | s => s.mismatch r .float64

def asChar (r : Registry) : Slot → Except InvokeError Char
  | char c => .ok c
  | s => s.mismatch r .char

/-- The referenced value, null included. -/
def asValue (r : Registry) : Slot → Except InvokeError Value
  | ref v => .ok v
  | s => s.mismatch r .object

def asString (r : Registry) : Slot → Except InvokeError String
  | ref (.string s) => .ok s
  | ref .null => .error (.nullReference "expected a string")
  | ref v => .error (.invalidCast (r.name .string) (v.typeName r))
  | s => s.mismatch r .object

def asObject (r : Registry) : Slot → Except InvokeError ObjectRef
  | ref (.object o) => .ok o
  | ref .null => .error (.nullReference "expected an object")
  | ref v => .error (.invalidCast (r.name .object) (v.typeName r))
  | s => s.mismatch r .object

def asArray (r : Registry) : Slot → Except InvokeError ArrayRef
  | ref (.array a) => .ok a
  | ref .null => .error (.nullReference "expected an array")
  | ref v => .error (.invalidCast (r.name .array) (v.typeName r))
  | s => s.mismatch r .object

end Slot

/-- Targets of the typed results of an invocation. -/
inductive Target
  | bool
  | int32
  | int64
  | float64
  | char
  | string
  | array
  | object
  | any
  /-- Null becomes the absence of a result. -/
  | optional (t : Target)

/-- A converted result: a value, or a value that may be absent. -/
inductive Converted
  | value (v : Value)
  | absent
  | present (c : Converted)

namespace Target

/-- A value of exactly the type called `name`. -/
def exactly (r : Registry) (t : Ty) (accepts : Value → Bool) (v : Value) :
    Except InvokeError Converted :=
  if accepts v then .ok (.value v)
  else if v.isNull then .error (.nullReference s!"cannot convert null to {r.name t}")
  else .error (.invalidCast (r.name t) (v.typeName r))

def convert (r : Registry) : Target → Value → Except InvokeError Converted
  | bool, v => exactly r .bool (· matches .bool _) v
  | int32, v => exactly r .int32 (· matches .int32 _) v
  | int64, v => exactly r .int64 (· matches .int64 _) v
  | float64, v => exactly r .float64 (· matches .float64 _) v
  | char, v => exactly r .char (· matches .char _) v
  | string, v => exactly r .string (· matches .string _) v
  | array, v => exactly r .array (· matches .array _) v
  | object, v => exactly r .object (· matches .object _) v
  | any, v => .ok (.value v)
  | optional t, v => if v.isNull then .ok .absent else (t.convert r v).map .present

end Target

end MemberAccess
