import MemberAccess.Defining
import MemberAccess.Script

/-!
A registry together with the bodies of its members. Bodies call each other through the host, and a
run is granted a depth to which they may be nested.
-/

namespace MemberAccess

inductive MemberBody
  | native (run : Registry → Frame → RunM Slot)
  | script (e : Script.Expr)

def MemberBody.run (p : Program) : MemberBody → Frame → RunM Slot
  | native run, frame => run p.registry frame
  | script e, frame => e.eval p frame

/-- The bodies of one type, by the ordinals of its members. -/
structure TypeBodies where
  methods : Array MemberBody := #[]
  constructors : Array MemberBody := #[]

structure Host where
  registry : Registry := {}
  /-- By type, as in the registry. -/
  bodies : Array TypeBodies := #[]

namespace Host

def bodiesOf (h : Host) (t : Ty) : TypeBodies :=
  ((t.id?.bind fun id => h.bodies[id]?)).getD {}

def modifyBodies (h : Host) (r : Registry) (t : Ty) (f : TypeBodies → TypeBodies) : Host :=
  { registry := r, bodies := match t.id? with
    | some id => h.bodies.modify id f
    | none => h.bodies }

/-- What a declared member does; all of them have a body. -/
def bodyOf (m? : Option MemberBody) : MemberBody :=
  m?.getD (.script (.raise (.invalidProgram "member without a body")))

/-- The bodies of a host that may be nested `depth` deep. -/
def bodiesWithin (h : Host) : Nat → Bodies
  | 0 => ⟨fun _ _ => throw .tooDeep, fun _ _ => throw .tooDeep⟩
  | depth + 1 =>
    { method := fun m frame =>
        let body := bodyOf (h.bodiesOf m.declaring).methods[m.ordinal]?
        body.run ⟨h.registry, h.bodiesWithin depth⟩ frame
      constructor := fun c frame =>
        let body := bodyOf (h.bodiesOf c.declaring).constructors[c.ordinal]?
        discard (body.run ⟨h.registry, h.bodiesWithin depth⟩ frame) }

def program (h : Host) (depth : Nat) : Program :=
  ⟨h.registry, h.bodiesWithin depth⟩

def startWith (h : Host) (start : Registry × Ty) : Host × Ty :=
  (⟨start.1, h.bodies.push {}⟩, start.2)

def startClass (h : Host) (name : String) : Host × Ty :=
  h.startWith (h.registry.startClass name)

def startDerived (h : Host) (name : String) (base : Ty) : Host × Ty :=
  h.startWith (h.registry.startDerived name base)

def startStruct (h : Host) (name : String) : Host × Ty :=
  h.startWith (h.registry.startStruct name)

def addField (h : Host) (t : Ty) (name : String) (type : Ty) (flags : Flags) :
    Option (Host × Field) :=
  (h.registry.addField t name type flags).map fun (r, f) => ({ h with registry := r }, f)

def addConstructor (h : Host) (t : Ty) (params : List Param) (flags : Flags) (body : MemberBody) :
    Option (Host × Constructor) :=
  (h.registry.addConstructor t params flags).map fun (r, c) =>
    (h.modifyBodies r t fun b => { b with constructors := b.constructors.push body }, c)

def addMethod (h : Host) (t : Ty) (name : String) (params : List Param) (returns : Ty)
    (flags : Flags) (body : MemberBody) : Option (Host × Method) :=
  (h.registry.addMethod t name params returns flags).map fun (r, m) =>
    (h.modifyBodies r t fun b => { b with methods := b.methods.push body }, m)

def addProperty (h : Host) (t : Ty) (name : String) (type : Ty) (index : List Param)
    (getter? setter? : Option Method) : Option (Host × Property) :=
  (h.registry.addProperty t name type index getter? setter?).map fun (r, q) =>
    ({ h with registry := r }, q)

def finish (h : Host) (t : Ty) : Option (Except DefinitionError Host) :=
  (h.registry.finish t).map fun r => r.map fun r => { h with registry := r }

end Host

end MemberAccess
