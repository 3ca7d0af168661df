import MemberAccess.Invoker.Compile
import MemberAccess.Reflection

/-!
Façades: a member together with the invokers compiled for it. Lookup and compilation happen once,
when a façade is made; a façade insists on the exact number of arguments.
-/

namespace MemberAccess

open Invoker (Policy CompileError)

/-- A name with parameter types, as errors show it. -/
def Registry.signatureText (r : Registry) (name : String) (types : List Ty) : String :=
  let types := ", ".intercalate (types.map r.name)
  s!"{name}({types})"

def exactCount (member : String) (expected got : Nat) : Except InvokeError Unit :=
  if expected = got then .ok () else .error (.argumentCount member expected got)

structure ConstructorFacade where
  invoker : ConstructorInvoker

namespace ConstructorFacade

def ofConstructor (r : Registry) (c : Constructor) : Except CompileError ConstructorFacade := do
  return ⟨← ConstructorInvoker.compile r c⟩

/-- The constructor of `t` without parameters, provided that it is public. -/
def ofType (r : Registry) (t : Ty) : Except CompileError ConstructorFacade :=
  match (r.constructor? t []).filter Constructor.isPublic with
  | some c => ofConstructor r c
  | none => .error (.noPublicConstructor (r.name t))

/-- The constructor of `t` with exactly these parameter types, public or not. -/
def withParams (r : Registry) (t : Ty) (types : List Ty) :
    Except CompileError ConstructorFacade :=
  match r.constructor? t types with
  | some c => ofConstructor r c
  | none => .error (.memberNotFound (r.name t) .constructor (r.signatureText ".ctor" types))

def constructor (x : ConstructorFacade) : Constructor := x.invoker.constructor

def invoke (p : Program) (x : ConstructorFacade) (args : Array Value) : RunM Value := do
  let c := x.constructor
  Run.ofExcept (exactCount (p.registry.constructorLabel c) c.params.length args.size)
  x.invoker.invoke p args

end ConstructorFacade

structure MethodFacade where
  invoker : MethodInvoker

namespace MethodFacade

def ofMethod (r : Registry) (m : Method) (policy : Policy := .checked) :
    Except CompileError MethodFacade := do
  return ⟨← MethodInvoker.compile r m policy⟩

def find (r : Registry) (t : Ty) (name : String) : Except CompileError MethodFacade :=
  match r.method? t name with
  | some m => ofMethod r m
  | none => .error (.memberNotFound (r.name t) .method name)

def findWith (r : Registry) (t : Ty) (name : String) (types : List Ty) :
    Except CompileError MethodFacade :=
  match r.methodWith? t name types with
  | some m => ofMethod r m
  | none => .error (.memberNotFound (r.name t) .method (r.signatureText name types))

def method (x : MethodFacade) : Method := x.invoker.method

def invoke (p : Program) (x : MethodFacade) (this : Value) (args : Array Value) : RunM Value := do
  let m := x.method
  Run.ofExcept (exactCount (p.registry.methodLabel m) m.params.length args.size)
  x.invoker.invoke p this args

def invokeStatic (p : Program) (x : MethodFacade) (args : Array Value) : RunM Value :=
  x.invoke p .null args

end MethodFacade

structure FieldFacade where
  getter : FieldReader
  setter : FieldWriter

namespace FieldFacade

def ofField (r : Registry) (f : Field) (policy : Policy := .checked) :
    Except CompileError FieldFacade := do
  return ⟨← FieldReader.compile r f policy, ← FieldWriter.compile r f policy⟩

def find (r : Registry) (t : Ty) (name : String) : Except CompileError FieldFacade :=
  match r.field? t name with
  | some f => ofField r f
  | none => .error (.memberNotFound (r.name t) .field name)

def field (x : FieldFacade) : Field := x.getter.field

def read (p : Program) (x : FieldFacade) (target : Value) : RunM Value :=
  x.getter.get p target

def write (p : Program) (x : FieldFacade) (target value : Value) : RunM Unit :=
  x.setter.set p target value

end FieldFacade

structure PropertyFacade where
  property : Property
  getter? : Option MethodFacade
  setter? : Option MethodFacade

namespace PropertyFacade

/-- Compiles an accessor that may be absent. -/
def accessor (r : Registry) (m? : Option Method) (policy : Policy) :
    Except CompileError (Option MethodFacade) :=
  match m? with
  | none => .ok none
  | some m => (MethodFacade.ofMethod r m policy).map some

def ofProperty (r : Registry) (q : Property) (policy : Policy := .checked) :
    Except CompileError PropertyFacade := do
  return ⟨q, ← accessor r q.getter? policy, ← accessor r q.setter? policy⟩

def find (r : Registry) (t : Ty) (name : String) : Except CompileError PropertyFacade :=
  match r.property? t name with
  | some q => ofProperty r q
  | none => .error (.memberNotFound (r.name t) .property name)

def canRead (x : PropertyFacade) : Bool := x.getter?.isSome
def canWrite (x : PropertyFacade) : Bool := x.setter?.isSome

def read (p : Program) (x : PropertyFacade) (target : Value) (index : Array Value) :
    RunM Value :=
  match x.getter? with
  | some getter => getter.invoke p target index
  | none => throw (.missingAccessor (p.registry.propertyLabel x.property) .getter)

/-- The setter receives the value alone, or the index followed by the value. -/
def write (p : Program) (x : PropertyFacade) (target value : Value) (index : Array Value) :
    RunM Unit :=
  match x.setter? with
  | some setter =>
    if index.isEmpty then discard (setter.invoke p target #[value])
    else discard (setter.invoke p target (index ++ #[value]))
  | none => throw (.missingAccessor (p.registry.propertyLabel x.property) .setter)

end PropertyFacade

end MemberAccess
