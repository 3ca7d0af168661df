import MemberAccess.Defining
import MemberAccess.Facade

/-!
Events: what an operation reports of itself, as data. An operation that fails reports what it had
finished before.
-/

namespace MemberAccess

open Code (Body Routine)
open Invoker (Kind Policy)

inductive Level
  | debug
  | trace
  deriving DecidableEq

def Level.text : Level → String
  | debug => "DEBUG"
  | trace => "TRACE"

structure Event where
  level : Level
  message : String
  fields : List (String × String)

namespace Event

/-- A type has been finished. -/
def typeDefined (r : Registry) (t : Ty) : Event :=
  ⟨.debug, "defined type",
    [("ty", r.name t), ("fields", toString (r.fields t).length),
      ("constructors", toString (r.constructors t).length),
      ("methods", toString (r.methods t).length),
      ("properties", toString (r.properties t).length)]⟩

/-- A body has passed the check. -/
def bodyLowered (f : Routine) : Event :=
  ⟨.trace, "lowered body",
    [("body", f.name), ("steps", toString f.body.code.size), ("max_stack", toString f.maxStack)]⟩

def bodyEmitted (r : Registry) (kind : Kind) (member : String) (b : Body) : Event :=
  ⟨.trace, s!"emitted body\n{b.listing r}", [("thunk", kind.text), ("member", member)]⟩

def invokerCompiled (kind : Kind) (member : String) (f : Routine) : Event :=
  ⟨.debug, "compiled thunk",
    [("thunk", kind.text), ("member", member), ("code_size", toString f.size),
      ("locals", toString f.body.locals.size), ("max_stack", toString f.maxStack)]⟩

/-- The three stages of an invoker. -/
def compilation (r : Registry) (kind : Kind) (member : String) (f : Routine) : List Event :=
  [bodyEmitted r kind member f.body, bodyLowered f, invokerCompiled kind member f]

end Event

def ConstructorInvoker.events (r : Registry) (i : ConstructorInvoker) : List Event :=
  Event.compilation r .constructor (r.constructorLabel i.constructor) i.routine

def MethodInvoker.events (r : Registry) (i : MethodInvoker) : List Event :=
  Event.compilation r .method (r.methodLabel i.method) i.routine

def FieldReader.events (r : Registry) (i : FieldReader) : List Event :=
  Event.compilation r .fieldReader (r.fieldLabel i.field) i.routine

def FieldWriter.events (r : Registry) (i : FieldWriter) : List Event :=
  Event.compilation r .fieldWriter (r.fieldLabel i.field) i.routine

def FieldFacade.events (r : Registry) (x : FieldFacade) : List Event :=
  x.getter.events r ++ x.setter.events r

namespace PropertyFacade

/-- What compiling one accessor reports, and whether it succeeds. -/
def accessorEvents (r : Registry) (m? : Option Method) (policy : Policy) :
    List Event × Bool :=
  match accessor r m? policy with
  | .ok none => ([], true)
  | .ok (some x) => (x.invoker.events r, true)
  | .error _ => ([], false)

/-- The accessors are compiled one after the other, and the façade is reported last. -/
def events (r : Registry) (q : Property) (policy : Policy) : List Event :=
  let (getter, readable) := accessorEvents r q.getter? policy
  let (setter, writable) := accessorEvents r q.setter? policy
  let facade : Event :=
    ⟨.debug, "property proxy",
      [("property", r.propertyLabel q), ("readable", toString q.getter?.isSome),
        ("writable", toString q.setter?.isSome), ("indexed", toString (!q.index.isEmpty))]⟩
  getter ++ if readable then setter ++ (if writable then [facade] else []) else []

end PropertyFacade

end MemberAccess
