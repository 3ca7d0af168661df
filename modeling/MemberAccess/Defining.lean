import MemberAccess.Registry

/-!
Defining types. A new type enters the registry as a draft, members are added to the draft, and
finishing turns the draft into member tables that never change again. A rejected definition leaves
the registry as it was.
-/

namespace MemberAccess

inductive DefinitionError
  /-- A slot would hold a value type that is not finished, so the type could contain itself. -/
  | recursiveValueType (type field : String)
  /-- Only classes and `Object` can be derived from. -/
  | invalidBase (type base : String)
  /-- The base type was not finished when the derived type was started. -/
  | unfinishedBase (type base : String)
  deriving DecidableEq

def DefinitionError.message : DefinitionError → String
  | recursiveValueType type field => s!"value type {type} contains itself through field {field}"
  | invalidBase type base => s!"{type} cannot derive from non-class type {base}"
  | unfinishedBase type base => s!"{type} derives from {base}, which is not finished"

def Draft.members (d : Draft) : Members :=
  { fields := d.fields, constructors := d.constructors, methods := d.methods,
    properties := d.properties, layout := d.layout }

namespace Registry

def addDecl (r : Registry) (d : TypeDecl) : Registry :=
  { r with types := r.types.push d }

def setDefinition (r : Registry) (t : Ty) (d : Definition) : Registry :=
  match t.id? with
  | none => r
  | some id => { r with types := r.types.modify id fun decl => { decl with definition := d } }

def setDraft (r : Registry) (t : Ty) (d : Draft) : Registry :=
  r.setDefinition t (.draft d)

/-- Starts a class that derives from `base` and takes over the slots known of it so far. -/
def startDerived (r : Registry) (name : String) (base : Ty) : Registry × Ty :=
  let draft : Draft := { layout := r.layout base, baseReady := !base.isClass || r.isFinished base }
  (r.addDecl ⟨name, r.chain base, .draft draft⟩, .classType r.types.size)

def startClass (r : Registry) (name : String) : Registry × Ty :=
  r.startDerived name .object

def startStruct (r : Registry) (name : String) : Registry × Ty :=
  (r.addDecl ⟨name, [], .draft {}⟩, .structType r.types.size)

/-- An instance field gets the next free slot, a static field none. -/
def addField (r : Registry) (t : Ty) (name : String) (type : Ty) (flags : Flags) :
    Option (Registry × Field) :=
  (r.draft? t).map fun d =>
    let storage := if flags.isStatic then .static else .slot d.layout.length
    let layout := if flags.isStatic then d.layout else d.layout ++ [type]
    let f : Field := ⟨t, d.fields.length, name, type, flags.isPublic, flags.isVirtual, storage⟩
    (r.setDraft t { d with fields := d.fields ++ [f], layout := layout }, f)

def addConstructor (r : Registry) (t : Ty) (params : List Param) (flags : Flags) :
    Option (Registry × Constructor) :=
  (r.draft? t).map fun d =>
    let c : Constructor := ⟨t, d.constructors.length, params, flags⟩
    (r.setDraft t { d with constructors := d.constructors ++ [c] }, c)

def addMethod (r : Registry) (t : Ty) (name : String) (params : List Param) (returns : Ty)
    (flags : Flags) : Option (Registry × Method) :=
  (r.draft? t).map fun d =>
    let m : Method := ⟨t, d.methods.length, name, params, returns, flags⟩
    (r.setDraft t { d with methods := d.methods ++ [m] }, m)

def addProperty (r : Registry) (t : Ty) (name : String) (type : Ty) (index : List Param)
    (getter? setter? : Option Method) : Option (Registry × Property) :=
  (r.draft? t).map fun d =>
    let p : Property := ⟨t, d.properties.length, name, type, index, getter?, setter?⟩
    (r.setDraft t { d with properties := d.properties ++ [p] }, p)

/-- A slot of an unfinished value type could close a cycle of value types. -/
def opensCycle (r : Registry) (f : Field) : Bool :=
  !f.isStatic && f.type.isStruct && !r.isFinished f.type

/-- Why a draft cannot be finished; an unfit base is found before an unfinished one. -/
def rejection? (r : Registry) (t : Ty) (d : Draft) : Option DefinitionError :=
  match r.base? t with
  | some base =>
    if !(base.isClass || base = .object) then some (.invalidBase (r.name t) (r.name base))
    else if !d.baseReady then some (.unfinishedBase (r.name t) (r.name base))
    else none
  | none =>
    (d.fields.find? r.opensCycle).map fun f => .recursiveValueType (r.name t) f.name

/-- Installs the member tables of a draft, unless the definition has to be rejected. -/
def finish (r : Registry) (t : Ty) : Option (Except DefinitionError Registry) :=
  (r.draft? t).map fun d =>
    match r.rejection? t d with
    | some e => .error e
    | none => .ok (r.setDefinition t (.finished d.members))

end Registry

end MemberAccess
