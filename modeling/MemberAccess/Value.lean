import MemberAccess.Registry

/-!
The two forms of a value. A `Value` is boxed: it is what crosses a call whose types are known only
at run time, and a value type appears in it by reference. A `Slot` is a typed cell that holds value
types in place: stack entries, locals, fields.
-/

namespace MemberAccess

/-- A reference to a class instance or a boxed value type; it knows what it refers to. -/
structure ObjectRef where
  type : Ty
  address : Nat
  deriving DecidableEq

structure ArrayRef where
  address : Nat
  deriving DecidableEq

inductive Value
  | null
  | bool (b : Bool)
  | int32 (n : Int32)
  | int64 (n : Int64)
  | float64 (x : Float)
  | char (c : Char)
  | string (s : String)
  | array (a : ArrayRef)
  | object (o : ObjectRef)

namespace Value

instance : Inhabited Value := ⟨null⟩

/-- Primitives and strings compare by content, objects and arrays by identity; as for floats, a
NaN differs from itself. -/
def beq : Value → Value → Bool
  | null, null => true
  | bool a, bool b => a == b
  | int32 a, int32 b => a == b
  | int64 a, int64 b => a == b
  | float64 a, float64 b => a == b
  | char a, char b => a == b
  | string a, string b => a == b
  | array a, array b => a == b
  | object a, object b => a == b
  | _, _ => false

instance : BEq Value := ⟨beq⟩

def isNull : Value → Bool
  | null => true
  | _ => false

def runtimeType? : Value → Option Ty
  | null => none
  | bool _ => some .bool
  | int32 _ => some .int32
  | int64 _ => some .int64
  | float64 _ => some .float64
  | char _ => some .char
  | string _ => some .string
  | array _ => some .array
  | object o => some o.type

def typeName (r : Registry) (v : Value) : String :=
  match v.runtimeType? with
  | none => "null"
  | some t => r.name t

def string? : Value → Option String
  | string s => some s
  | _ => none

end Value

inductive Slot
  | bool (b : Bool)
  | int32 (n : Int32)
  | int64 (n : Int64)
  | float64 (x : Float)
  | char (c : Char)
  /-- An unboxed value of `type`, its fields in layout order. -/
  | struct (type : Ty) (fields : List Slot)
  /-- Any reference: null, an object, an array, a string or a boxed value. -/
  | ref (v : Value)

namespace Slot

abbrev null : Slot := ref .null

instance : Inhabited Slot := ⟨null⟩

mutual

def beq : Slot → Slot → Bool
  | bool a, bool b => a == b
  | int32 a, int32 b => a == b
  | int64 a, int64 b => a == b
  | float64 a, float64 b => a == b
  | char a, char b => a == b
  | struct s as, struct t bs => s == t && beqAll as bs
  | ref a, ref b => a == b
  | _, _ => false

def beqAll : List Slot → List Slot → Bool
  | [], [] => true
  | a :: as, b :: bs => beq a b && beqAll as bs
  | _, _ => false

end

instance : BEq Slot := ⟨beq⟩

/-- What the slot holds, as errors call it. -/
def kindText (r : Registry) : Slot → String
  | bool _ => r.name .bool
  | int32 _ => r.name .int32
  | int64 _ => r.name .int64
  | float64 _ => r.name .float64
  | char _ => r.name .char
  | struct t _ => r.name t
  | ref v => v.typeName r

/-- Whether the slot may be stored where `t` is expected. -/
def fits (r : Registry) : Slot → Ty → Bool
  | bool _, t => t = .bool
  | int32 _, t => t = .int32
  | int64 _, t => t = .int64
  | float64 _, t => t = .float64
  | char _, t => t = .char
  | struct s _, t => t.isStruct && s = t
  | ref v, t => t.isReferenceType && v.runtimeType?.all (r.assignable t ·)

end Slot

def Primitive.initial : Primitive → Slot
  | bool => .bool false
  | int32 => .int32 0
  | int64 => .int64 0
  | float64 => .float64 0.0
  | char => .char (Char.ofNat 0)

namespace Registry

/-- The value of a fresh location, value types nested at most `depth` deep. -/
def initialWithin (r : Registry) : Nat → Ty → Slot
  | _, .primitive p => p.initial
  | 0, .structType id => .struct (.structType id) []
  | depth + 1, .structType id =>
    .struct (.structType id) ((r.layout (.structType id)).map (r.initialWithin depth))
  | _, _ => .null

/-- The value of a fresh local, field or cell. A finished value type holds only value types that
were finished before it, so no more of them are nested than there are types. -/
def initial (r : Registry) (t : Ty) : Slot :=
  r.initialWithin r.types.size t

/-- The slots of a fresh instance. -/
def initialSlots (r : Registry) (t : Ty) : List Slot :=
  (r.layout t).map r.initial

/-- A struct of any type with its slots at their defaults. -/
def initialStruct (r : Registry) (t : Ty) : Slot :=
  .struct t (r.initialSlots t)

end Registry

end MemberAccess
