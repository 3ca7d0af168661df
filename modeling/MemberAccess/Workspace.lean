import MemberAccess.Event
import MemberAccess.Inspect
import MemberAccess.Prelude

/-!
Workspaces: a host with its store and the things that have been given a name, for using the library
one step at a time. A step that fails keeps what it did before it failed.
-/

namespace MemberAccess

open Std (TreeMap)
open Invoker (CompileError Policy)
open Code (Body BodyError Routine)

/-- What a name can stand for. -/
inductive Item
  | type (t : Ty)
  /-- A type whose definition is open. -/
  | draft (t : Ty)
  | field (f : Field)
  | method (m : Method)
  | constructor (c : Constructor)
  | property (q : Property)
  | value (v : Value)
  | slot (s : Slot)
  | routine (f : Routine)
  | constructorInvoker (i : ConstructorInvoker)
  | methodInvoker (i : MethodInvoker)
  | getter (i : FieldReader)
  | setter (i : FieldWriter)
  | constructorFacade (x : ConstructorFacade)
  | methodFacade (x : MethodFacade)
  | fieldFacade (x : FieldFacade)
  | propertyFacade (x : PropertyFacade)

/-- Results of façades, and of nothing else, are converted on demand. -/
def Item.isFacade : Item → Bool
  | constructorFacade _ | methodFacade _ | fieldFacade _ | propertyFacade _ => true
  | _ => false

/-- The text of an item; with `opened`, an object or array shows its contents. -/
def Item.inspect (r : Registry) (h : Heap) (opened : Bool) : Item → String
  | type t | draft t => r.inspectType t
  | field f => r.inspectField f
  | method m => r.inspectMethod m
  | constructor c => r.inspectConstructor c
  | property q => r.inspectProperty q
  | value v => if opened then v.inspectOpen r h else v.inspect r h
  | slot s => s.inspect r h
  | routine f => f.inspect r
  | constructorInvoker i => i.inspect r
  | methodInvoker i => i.inspect r
  | getter i => i.inspect r
  | setter i => i.inspect r
  | constructorFacade x => x.inspect r
  | methodFacade x => x.inspect r
  | fieldFacade x => x.inspect r
  | propertyFacade x => x.inspect r

inductive Failure
  | invoke (e : InvokeError)
  | definition (e : DefinitionError)
  | body (e : BodyError)
  | compile (e : CompileError)
  | noSuchMember
  | unbound (name : String)
  /-- Something of another kind was asked for. -/
  | unfit (expected : String)

def Failure.message : Failure → String
  | invoke e => e.message
  | definition e => e.message
  | body e => e.message
  | compile e => e.message
  | noSuchMember => "no such member"
  | unbound name => name
  | unfit expected => s!"{expected} expected"

/-- What calling an item does: the result, or none for writing a field or property, which is what a
new value asks a façade for. Types, members, values and routines are not called in this way. -/
def Item.call? (p : Program) (this : Value) (args : Array Value) (new? : Option Value) :
    Item → Option (RunM (Option Value))
  | constructorInvoker i => some do return some (← i.invoke p args)
  | methodInvoker i => some do return some (← i.invoke p this args)
  | getter i => some do return some (← i.get p this)
  | setter i => some do
    i.set p this (new?.getD .null)
    return none
  | constructorFacade x => some do return some (← x.invoke p args)
  | methodFacade x => some do return some (← x.invoke p this args)
  | fieldFacade x => some do
    match new? with
    | some v =>
      x.write p this v
      return none
    | none => return some (← x.read p this)
  | propertyFacade x => some do
    match new? with
    | some v =>
      x.write p this v args
      return none
    | none => return some (← x.read p this args)
  | _ => none

structure Workspace where
  host : Host := Prelude.host
  heap : Heap := {}
  /-- How deep member bodies may be nested. -/
  depth : Nat := 1000000
  items : TreeMap String Item := {}
  /-- Numbers of the objects and arrays that have been shown, in the order of showing. -/
  shownObjects : TreeMap Nat Nat := {}
  shownArrays : TreeMap Nat Nat := {}
  /-- What the current step has reported. -/
  events : Array Event := #[]

abbrev Work := ExceptT Failure (StateM Workspace)

namespace Work

def registry : Work Registry := do return (← get).host.registry

def program : Work Program := do
  let w ← get
  return w.host.program w.depth

def ofExcept (wrap : ε → Failure) : Except ε α → Work α
  | .ok a => return a
  | .error e => throw (wrap e)

def run (x : RunM α) : Work α := do
  let heap ← modifyGet fun w => (w.heap, { w with heap := {} })
  let (result, heap) := x heap
  modify ({ · with heap := heap })
  ofExcept .invoke result

def report (events : List Event) : Work Unit :=
  modify fun w => { w with events := w.events ++ events.toArray }

def name (name : String) (i : Item) : Work Unit :=
  modify fun w => { w with items := w.items.insert name i }

def lookup (name : String) : Work Item := do
  match (← get).items[name]? with
  | some i => return i
  | none => throw (.unbound name)

def found (m? : Option α) : Work α :=
  match m? with
  | some m => return m
  | none => throw .noSuchMember

def numberOf (address : Nat) (map : Workspace → TreeMap Nat Nat)
    (set : Workspace → TreeMap Nat Nat → Workspace) : Work Nat :=
  modifyGet fun w =>
    match (map w)[address]? with
    | some n => (n, w)
    | none =>
      let n := w.shownObjects.size + w.shownArrays.size
      (n, set w ((map w).insert address n))

def objectNumber (o : ObjectRef) : Work Nat :=
  numberOf o.address Workspace.shownObjects fun w m => { w with shownObjects := m }

def arrayNumber (a : ArrayRef) : Work Nat :=
  numberOf a.address Workspace.shownArrays fun w m => { w with shownArrays := m }

def start (f : Host → Host × Ty) : Work Ty :=
  modifyGet fun w =>
    let (h, t) := f w.host
    (t, { w with host := h })

/-- The open definition of a name. -/
def draft (name : String) : Work Ty := do
  match ← lookup name with
  | .draft t => return t
  | _ => throw (.unfit "open definition")

def declare (add : Host → Option (Host × α)) : Work α := do
  match add (← get).host with
  | some (h, m) =>
    modify ({ · with host := h })
    return m
  | none => throw (.unfit "open definition")

/-- Closes the definition of a name, whether it is accepted or not. -/
def finish (name : String) : Work Ty := do
  let t ← draft name
  Work.name name (.type t)
  match (← get).host.finish t with
  | some result =>
    let h ← ofExcept .definition result
    modify ({ · with host := h })
    report [Event.typeDefined h.registry t]
    return t
  | none => throw (.unfit "open definition")

def declareLocals (b : Body) (types : List Ty) : Work Body :=
  types.foldlM (fun b t => do return (← ofExcept .body (b.addLocal t)).1) b

def compiled (x : Except CompileError α) (events : Registry → α → List Event) : Work α := do
  let a ← ofExcept .compile x
  report (events (← registry) a)
  return a

def propertyFacade (q : Property) (policy : Policy) : Work PropertyFacade := do
  let r ← registry
  report (PropertyFacade.events r q policy)
  ofExcept .compile (PropertyFacade.ofProperty r q policy)

end Work

end MemberAccess
