import MemberAccess.Member
import MemberAccess.NameIndex

/-!
The registry of user-defined types: names, base chains and member tables, and the questions asked
of them. A type contributes members only once its definition is finished; its identity, name and
base chain are there from the start, so that members may mention it while it is being defined.
-/

namespace MemberAccess

open Std (TreeMap)

/-- Member tables of a finished type. -/
structure Members where
  fields : List Field := []
  constructors : List Constructor := []
  methods : List Method := []
  properties : List Property := []
  /-- Types of the instance slots, those of the base type first. -/
  layout : List Ty := []
  fieldIndex : TreeMap String Nat := firstPositions (fields.map Field.name)
  methodIndex : TreeMap String (List Nat) := allPositions (methods.map Method.name)
  propertyIndex : TreeMap String Nat := firstPositions (properties.map Property.name)
  fieldIndex_eq : fieldIndex = firstPositions (fields.map Field.name) := by rfl
  methodIndex_eq : methodIndex = allPositions (methods.map Method.name) := by rfl
  propertyIndex_eq : propertyIndex = firstPositions (properties.map Property.name) := by rfl

namespace Members

def field? (t : Members) (name : String) : Option Field :=
  t.fieldIndex[name]?.bind fun i => t.fields[i]?

/-- The methods of one name, in the order of declaration. -/
def overloads (t : Members) (name : String) : List Method :=
  (t.methodIndex[name]?.getD []).filterMap fun i => t.methods[i]?

def method? (t : Members) (name : String) : Option Method :=
  (t.overloads name).head?

def methodWith? (t : Members) (name : String) (types : List Ty) : Option Method :=
  (t.overloads name).find? fun m => Param.matchTypes m.params types

def property? (t : Members) (name : String) : Option Property :=
  t.propertyIndex[name]?.bind fun i => t.properties[i]?

end Members

/-- What has been declared on a type that is not finished yet. -/
structure Draft where
  fields : List Field := []
  constructors : List Constructor := []
  methods : List Method := []
  properties : List Property := []
  layout : List Ty := []
  /-- Whether the slots of the base type were known when they were taken over. -/
  baseReady : Bool := true

inductive Definition
  | draft (d : Draft)
  | finished (t : Members)

structure TypeDecl where
  name : String
  /-- Proper ancestors, nearest first. -/
  lineage : List Ty
  definition : Definition

def TypeDecl.members? (d : TypeDecl) : Option Members :=
  match d.definition with
  | .draft _ => none
  | .finished t => some t

def TypeDecl.draft? (d : TypeDecl) : Option Draft :=
  match d.definition with
  | .draft d => some d
  | .finished _ => none

theorem TypeDecl.members?_eq_some {d : TypeDecl} {t : Members} :
    d.members? = some t ↔ d.definition = .finished t := by
  unfold members?
  cases d.definition <;> simp

theorem TypeDecl.draft?_eq_some {d : TypeDecl} {x : Draft} :
    d.draft? = some x ↔ d.definition = .draft x := by
  unfold draft?
  cases d.definition <;> simp

structure Registry where
  types : Array TypeDecl := #[]

namespace Registry

def decl? (r : Registry) (t : Ty) : Option TypeDecl :=
  t.id?.bind fun id => r.types[id]?

def name (r : Registry) (t : Ty) : String :=
  match t with
  | .void => "Void"
  | .primitive .bool => "Boolean"
  | .primitive .int32 => "Int32"
  | .primitive .int64 => "Int64"
  | .primitive .float64 => "Double"
  | .primitive .char => "Char"
  | .string => "String"
  | .array => "Object[]"
  | .object => "Object"
  | .structType id | .classType id => (r.types[id]?.map TypeDecl.name).getD ""

/-- Proper ancestors, nearest first; built-in types report none. -/
def lineage (r : Registry) (t : Ty) : List Ty :=
  ((r.decl? t).map TypeDecl.lineage).getD []

def base? (r : Registry) (t : Ty) : Option Ty :=
  (r.lineage t).head?

/-- The type itself and its ancestors, nearest first. -/
def chain (r : Registry) (t : Ty) : List Ty :=
  t :: r.lineage t

def members? (r : Registry) (t : Ty) : Option Members :=
  (r.decl? t).bind TypeDecl.members?

def draft? (r : Registry) (t : Ty) : Option Draft :=
  (r.decl? t).bind TypeDecl.draft?

def isFinished (r : Registry) (t : Ty) : Bool :=
  (r.members? t).isSome

/-- Member tables, empty as long as there are none. -/
def members (r : Registry) (t : Ty) : Members :=
  (r.members? t).getD {}

def layout (r : Registry) (t : Ty) : List Ty := (r.members t).layout
def fields (r : Registry) (t : Ty) : List Field := (r.members t).fields
def constructors (r : Registry) (t : Ty) : List Constructor := (r.members t).constructors
def methods (r : Registry) (t : Ty) : List Method := (r.members t).methods
def properties (r : Registry) (t : Ty) : List Property := (r.members t).properties

/-- Whether a value of runtime type `source` may be viewed as `target`: `Object` takes everything
but void, any other type itself and what derives from it. -/
def assignable (r : Registry) (target source : Ty) : Bool :=
  if target = source then true
  else if target = .object then !source.isVoid
  else (r.lineage source).contains target

theorem assignable_iff (r : Registry) (target source : Ty) :
    r.assignable target source ↔
      target = source ∨ target = .object ∧ source ≠ .void ∨ target ∈ r.lineage source := by
  by_cases same : target = source
  · simp [assignable, same]
  · by_cases top : target = .object
    · cases source <;> simp_all [assignable, Ty.isVoid, lineage, decl?, Ty.id?]
    · simp [assignable, same, top]

/-- The first hit along the base chain; types without member tables are passed over. -/
def search (r : Registry) (t : Ty) (find : Members → Option α) : Option α :=
  (r.chain t).findSome? fun s => (r.members? s).bind find

def field? (r : Registry) (t : Ty) (name : String) : Option Field :=
  r.search t (Members.field? · name)

/-- The first method of this name on the nearest type that has one. -/
def method? (r : Registry) (t : Ty) (name : String) : Option Method :=
  r.search t (Members.method? · name)

def methodWith? (r : Registry) (t : Ty) (name : String) (types : List Ty) : Option Method :=
  r.search t (Members.methodWith? · name types)

def property? (r : Registry) (t : Ty) (name : String) : Option Property :=
  r.search t (Members.property? · name)

/-- Constructors are not inherited. -/
def constructor? (r : Registry) (t : Ty) (types : List Ty) : Option Constructor :=
  (r.constructors t).find? fun c => Param.matchTypes c.params types

/-- The most-derived override of `m` for a receiver of type `runtime`: the first one on the way up
to the declaring type, else `m` itself. -/
def mostDerived (r : Registry) (m : Method) (runtime : Ty) : Method :=
  let below := (r.chain runtime).takeWhile (· != m.declaring)
  (below.findSome? fun t => (r.methods t).find? (·.overrides m)).getD m

def fieldLabel (r : Registry) (f : Field) : String := s!"{r.name f.declaring}::{f.name}"
def methodLabel (r : Registry) (m : Method) : String := s!"{r.name m.declaring}::{m.name}"
def constructorLabel (r : Registry) (c : Constructor) : String := s!"{r.name c.declaring}::.ctor"
def propertyLabel (r : Registry) (p : Property) : String := s!"{r.name p.declaring}::{p.name}"

end Registry

end MemberAccess
