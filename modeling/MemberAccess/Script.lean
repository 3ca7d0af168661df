import MemberAccess.ArrayAccess
import MemberAccess.CheckedSum
import MemberAccess.Reflection

/-!
Member bodies as data: a small expression language over the receiver and the arguments, whose
expressions give slots. Operands are evaluated from left to right, and the first error ends it. A
member is looked up when the operands are there; only `load` and `new` look for theirs first.
-/

namespace MemberAccess

/-- How a member is named; all but a known one are looked up whenever they are used. -/
inductive MemberRef (α : Type)
  | known (m : α)
  /-- By position among the type's own members. -/
  | nth (t : Ty) (i : Nat)
  | named (t : Ty) (name : String)
  | overload (t : Ty) (name : String) (types : List Ty)
  /-- By parameter types alone, as constructors are. -/
  | typed (t : Ty) (types : List Ty)

namespace MemberRef

def field? (r : Registry) : MemberRef Field → Option Field
  | known f => some f
  | nth t i => (r.fields t)[i]?
  | named t name => r.field? t name
  | overload .. | typed .. => none

def method? (r : Registry) : MemberRef Method → Option Method
  | known m => some m
  | nth t i => (r.methods t)[i]?
  | named t name => r.method? t name
  | overload t name types => r.methodWith? t name types
  | typed .. => none

def constructor? (r : Registry) : MemberRef Constructor → Option Constructor
  | known c => some c
  | nth t i => (r.constructors t)[i]?
  | typed t types => r.constructor? t types
  | named .. | overload .. => none

def property? (r : Registry) : MemberRef Property → Option Property
  | known q => some q
  | nth t i => (r.properties t)[i]?
  | named t name => r.property? t name
  | overload .. | typed .. => none

end MemberRef

namespace Script

/-- Ways to read a slot. -/
inductive View
  | bool
  | int32
  | int64
  | float64
  | char
  | value
  | string
  | object
  | array

def View.read (r : Registry) (view : View) (s : Slot) : Except InvokeError Slot :=
  match view with
  | bool => (s.asBool r).map .bool
  | int32 => (s.asInt32 r).map .int32
  | int64 => (s.asInt64 r).map .int64
  | float64 => (s.asFloat64 r).map .float64
  | char => (s.asChar r).map .char
  | value => (s.asValue r).map .ref
  | string => (s.asString r).map fun s => .ref (.string s)
  | object => (s.asObject r).map fun o => .ref (.object o)
  | array => (s.asArray r).map fun a => .ref (.array a)

inductive Expr
  | arg (i : Nat)
  | receiver
  | receiverObject
  | argCount
  | lit (s : Slot)
  | load (f : MemberRef Field) (e : Expr)
  | loadUnboxed (f : MemberRef Field) (e : Expr)
  | store (f : MemberRef Field) (target e : Expr)
  | add (a b : Expr)
  | cat (a b : Expr)
  | view (v : View) (e : Expr)
  | length (e : Expr)
  | item (a i : Expr)
  | setItem (a i e : Expr)
  | box (e : Expr) (t : Ty)
  | unbox (e : Expr) (t : Ty)
  | cast (e : Expr) (t : Ty)
  | call (m : MemberRef Method) (target : Expr) (args : List Expr)
  | callVirtual (m : MemberRef Method) (target : Expr) (args : List Expr)
  | invoke (m : MemberRef Method) (target : Expr) (args : List Expr)
  | new (c : MemberRef Constructor) (args : List Expr)
  | raise (e : InvokeError)
  | ifNull (e a b : Expr)
  | seq (es : List Expr)

/-- What a reference to a member gives, or the error that there is none. -/
def found (m? : Option α) : Except InvokeError α :=
  match m? with
  | some m => .ok m
  | none => .error (.native "no such member")

def sum (a b : Int32) : Except InvokeError Int32 :=
  match checkedAdd? a b with
  | some n => .ok n
  | none => .error (.native "overflow")

/-- The value that a slot refers to. -/
def valueOf (r : Registry) (s : Slot) : RunM Value :=
  Run.ofExcept (s.asValue r)

namespace Expr

mutual

def eval (p : Program) (frame : Frame) : Expr → RunM Slot
  | arg i => Run.ofExcept (frame.arg i)
  | receiver => return .ref frame.this
  | receiverObject => return .ref (.object (← Run.ofExcept (frame.receiverObject p.registry)))
  | argCount => return .int32 (Int32.ofNat frame.args.size)
  | lit s => return s
  | load f e => do
    let f ← Run.ofExcept (found (f.field? p.registry))
    f.load p.registry (← valueOf p.registry (← eval p frame e))
  | loadUnboxed f e => do
    match ← eval p frame e with
    | .struct t fields =>
      let f ← Run.ofExcept (found (f.field? p.registry))
      f.loadUnboxed p.registry t fields
    | _ => throw (.native "not a struct")
  | store f target e => do
    let v ← valueOf p.registry (← eval p frame target)
    let s ← eval p frame e
    let f ← Run.ofExcept (found (f.field? p.registry))
    f.store p.registry v s
    return .null
  | add a b => do
    let a ← Run.ofExcept ((← eval p frame a).asInt32 p.registry)
    let b ← Run.ofExcept ((← eval p frame b).asInt32 p.registry)
    return .int32 (← Run.ofExcept (sum a b))
  | cat a b => do
    let a ← eval p frame a
    let b ← eval p frame b
    let a ← Run.ofExcept (a.asString p.registry)
    let b ← Run.ofExcept (b.asString p.registry)
    return .ref (.string (a ++ b))
  | view v e => do Run.ofExcept (v.read p.registry (← eval p frame e))
  | length e => do
    let a ← Run.ofExcept ((← eval p frame e).asArray p.registry)
    return .int32 (Int32.ofNat ((← get).items a).size)
  | item a i => do
    let a ← Run.ofExcept ((← eval p frame a).asArray p.registry)
    let i ← Run.ofExcept ((← eval p frame i).asInt32 p.registry)
    return .ref (← a.get i)
  | setItem a i e => do
    let a ← Run.ofExcept ((← eval p frame a).asArray p.registry)
    let i ← Run.ofExcept ((← eval p frame i).asInt32 p.registry)
    return .bool (← a.set i (← valueOf p.registry (← eval p frame e)))
  | box e t => do return .ref (← (← eval p frame e).box p.registry t)
  | unbox e t => do (← valueOf p.registry (← eval p frame e)).unbox p.registry t
  | cast e t => do
    let v ← valueOf p.registry (← eval p frame e)
    return .ref (← Run.ofExcept (v.cast p.registry t))
  | call m target args => do
    let v ← valueOf p.registry (← eval p frame target)
    let slots ← evalAll p frame args
    let m ← Run.ofExcept (found (m.method? p.registry))
    m.call p v slots.toArray
  | callVirtual m target args => do
    let v ← valueOf p.registry (← eval p frame target)
    let slots ← evalAll p frame args
    let m ← Run.ofExcept (found (m.method? p.registry))
    m.callVirtual p v slots.toArray
  | invoke m target args => do
    let v ← valueOf p.registry (← eval p frame target)
    let values ← evalValues p frame args
    let m ← Run.ofExcept (found (m.method? p.registry))
    return .ref (← m.invoke p v values.toArray)
  | new c args => do
    let c ← Run.ofExcept (found (c.constructor? p.registry))
    c.construct p (← evalAll p frame args).toArray
  | raise e => throw e
  | ifNull e a b => do
    if (← valueOf p.registry (← eval p frame e)).isNull then eval p frame a else eval p frame b
  | seq es => evalSeq p frame es .null

def evalAll (p : Program) (frame : Frame) : List Expr → RunM (List Slot)
  | [] => return []
  | e :: rest => do
    let s ← eval p frame e
    return s :: (← evalAll p frame rest)

/-- Every result has to be a reference. -/
def evalValues (p : Program) (frame : Frame) : List Expr → RunM (List Value)
  | [] => return []
  | e :: rest => do
    let v ← valueOf p.registry (← eval p frame e)
    return v :: (← evalValues p frame rest)

/-- All in order; the result of the last one, or `last` if there is none. -/
def evalSeq (p : Program) (frame : Frame) : List Expr → Slot → RunM Slot
  | [], last => return last
  | e :: rest, _ => do evalSeq p frame rest (← eval p frame e)

end

end Expr

end Script

end MemberAccess
