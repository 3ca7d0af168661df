import MemberAccess.Invoker.Convention

/-!
Invokers: routines compiled for one member each, that take boxed values of any type and do all
conversions on the way. Arguments are converted before the receiver is looked at and before the
member runs.
-/

namespace MemberAccess.Invoker

open Code (Body Routine Instr)

/-- Checks a body that was built for `member`. -/
def routineFor (member : String) (body : Body) : Except CompileError Routine :=
  body.toRoutine.mapError (.rejectedBody member)

end MemberAccess.Invoker

namespace MemberAccess

structure ConstructorInvoker where
  constructor : Constructor
  routine : Code.Routine

structure MethodInvoker where
  method : Method
  routine : Code.Routine

structure FieldReader where
  field : Field
  routine : Code.Routine

structure FieldWriter where
  field : Field
  routine : Code.Routine

open Invoker (Kind Policy CompileError acceptParams unpack reload castReceiver)
open Code (Body Instr Argument)

namespace ConstructorInvoker

/-- Local 0 holds the new instance, the locals after it the arguments. -/
def code (c : Constructor) : List Instr :=
  unpack 0 1 c.params ++ reload 1 c.params.length ++
    [.newobj c, .storeLocal 0, .loadLocal 0] ++ Instr.boxValue c.declaring ++ [.ret]

def body (r : Registry) (c : Constructor) : Body :=
  { name := s!"{Kind.constructor.text} {r.constructorLabel c}"
    signature := Kind.constructor.signature
    locals := (c.declaring :: c.params.map Param.type).toArray
    code := (code c).toArray }

def compile (r : Registry) (c : Constructor) : Except CompileError ConstructorInvoker := do
  acceptParams (r.constructorLabel c) c.params
  return ⟨c, ← Invoker.routineFor (r.constructorLabel c) (body r c)⟩

/-- Arguments are read by position: a short array fails at the first missing one, and what comes
after the last one is ignored. -/
def invoke (p : Program) (i : ConstructorInvoker) (args : Array Value) : RunM Value := do
  match ← i.routine.run p #[.array args] with
  | some v => return v
  | none =>
    throw (.invalidProgram s!"{p.registry.constructorLabel i.constructor} produced no instance")

end ConstructorInvoker

namespace MethodInvoker

def receiver (m : Method) (policy : Policy) : List Instr :=
  if m.isStatic then [] else .loadArgument 0 :: castReceiver policy m.declaring

/-- A method without a result gives null. -/
def result (m : Method) : List Instr :=
  if m.returns.isVoid then [.ldnull] else Instr.boxValue m.returns

def code (m : Method) (policy : Policy) : List Instr :=
  unpack 1 0 m.params ++ receiver m policy ++ reload 0 m.params.length ++ [.callMethod m] ++
    result m ++ [.ret]

def body (r : Registry) (m : Method) (policy : Policy) : Body :=
  { name := s!"{Kind.method.text} {r.methodLabel m}"
    signature := Kind.method.signature
    locals := (m.params.map Param.type).toArray
    code := (code m policy).toArray }

def compile (r : Registry) (m : Method) (policy : Policy := .checked) :
    Except CompileError MethodInvoker := do
  acceptParams (r.methodLabel m) m.params
  return ⟨m, ← Invoker.routineFor (r.methodLabel m) (body r m policy)⟩

/-- Arguments are read by position, as for constructors. -/
def invoke (p : Program) (i : MethodInvoker) (this : Value) (args : Array Value) : RunM Value := do
  match ← i.routine.run p #[.value this, .array args] with
  | some v => return v
  | none => throw (.invalidProgram s!"{p.registry.methodLabel i.method} produced no result")

end MethodInvoker

/-- The receiver of a field; static fields take it unchecked and do not look at it. -/
def Field.loadReceiver (f : Field) (policy : Policy) : List Instr :=
  .loadArgument 0 :: if f.isStatic then [] else castReceiver policy f.declaring

namespace FieldReader

def code (f : Field) (policy : Policy) : List Instr :=
  f.loadReceiver policy ++ [.ldfld f, .storeLocal 0, .loadLocal 0] ++ Instr.boxValue f.type ++
    [.ret]

def body (r : Registry) (f : Field) (policy : Policy) : Body :=
  { name := s!"{Kind.fieldReader.text} {r.fieldLabel f}"
    signature := Kind.fieldReader.signature
    locals := #[f.type]
    code := (code f policy).toArray }

def compile (r : Registry) (f : Field) (policy : Policy := .checked) :
    Except CompileError FieldReader := do
  return ⟨f, ← Invoker.routineFor (r.fieldLabel f) (body r f policy)⟩

def get (p : Program) (i : FieldReader) (target : Value) : RunM Value := do
  match ← i.routine.run p #[.value target] with
  | some v => return v
  | none => throw (.invalidProgram s!"{p.registry.fieldLabel i.field} produced no value")

end FieldReader

namespace FieldWriter

def code (f : Field) (policy : Policy) : List Instr :=
  f.loadReceiver policy ++ [.loadArgument 1, .coerce f.type, .stfld f, .ret]

def body (r : Registry) (f : Field) (policy : Policy) : Body :=
  { name := s!"{Kind.fieldWriter.text} {r.fieldLabel f}"
    signature := Kind.fieldWriter.signature
    code := (code f policy).toArray }

def compile (r : Registry) (f : Field) (policy : Policy := .checked) :
    Except CompileError FieldWriter := do
  return ⟨f, ← Invoker.routineFor (r.fieldLabel f) (body r f policy)⟩

def set (p : Program) (i : FieldWriter) (target value : Value) : RunM Unit :=
  discard (i.routine.run p #[.value target, .value value])

end FieldWriter

end MemberAccess
