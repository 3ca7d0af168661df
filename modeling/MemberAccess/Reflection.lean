import MemberAccess.Calling

/-!
Invoking members by their descriptors, on boxed values. Every call checks the argument count,
converts the arguments in order, checks the receiver, dispatches, and boxes the result.
-/

namespace MemberAccess

/-- Converts the arguments from left to right; the first one that does not convert decides. -/
def unboxArguments (r : Registry) (member : String) (params : List Param) (args : Array Value) :
    RunM (Array Slot) := do
  if args.size != params.length then throw (.argumentCount member params.length args.size)
  let slots ← (params.zip args.toList).mapM fun (p, v) => v.unbox r p.type
  return slots.toArray

namespace Method

/-- A static method takes any receiver. By-reference arguments are passed by value. -/
def invoke (p : Program) (m : Method) (this : Value) (args : Array Value) : RunM Value := do
  let r := p.registry
  let slots ← unboxArguments r (r.methodLabel m) m.params args
  let result ←
    if m.isStatic then m.call p .null slots
    else do
      let receiver ← Run.ofExcept (this.cast r m.declaring)
      if receiver.isNull then throw (.nullReference s!"receiver of {r.methodLabel m}")
      m.callVirtual p receiver slots
  if m.returns.isVoid then return .null else result.box r m.returns

end Method

/-- A value type comes back boxed. -/
def Constructor.invoke (p : Program) (c : Constructor) (args : Array Value) : RunM Value := do
  let r := p.registry
  let slots ← unboxArguments r (r.constructorLabel c) c.params args
  let created ← c.construct p slots
  created.box r c.declaring

namespace Field

def read (r : Registry) (f : Field) (target : Value) : RunM Value := do
  (← f.load r target).box r f.type

def write (r : Registry) (f : Field) (target value : Value) : RunM Unit := do
  f.store r target (← value.unbox r f.type)

end Field

namespace Property

def read (p : Program) (q : Property) (target : Value) (index : Array Value) : RunM Value :=
  match q.getter? with
  | some m => m.invoke p target index
  | none => throw (.missingAccessor (p.registry.propertyLabel q) .getter)

/-- The setter receives the index followed by the value. -/
def write (p : Program) (q : Property) (target value : Value) (index : Array Value) :
    RunM Unit :=
  match q.setter? with
  | some m => discard (m.invoke p target (index.push value))
  | none => throw (.missingAccessor (p.registry.propertyLabel q) .setter)

end Property

end MemberAccess
