/-!
Types as identities. What a type is called, what it derives from and which members it has is kept
by the registry; which kind of type it is can be told from the identity alone.
-/

namespace MemberAccess

inductive Primitive
  | bool
  | int32
  | int64
  | float64
  | char
  deriving DecidableEq

/-- Position of a user-defined type in the registry. -/
abbrev TypeId := Nat

/-- Two types are the same exactly if their identities are equal. -/
inductive Ty
  /-- No value at all; only the return type of methods without a result. -/
  | void
  | primitive (p : Primitive)
  | string
  /-- Arrays of boxed values. -/
  | array
  /-- The root of every reference type. -/
  | object
  /-- User-defined, copied by value and boxed where a reference is needed. -/
  | structType (id : TypeId)
  /-- User-defined, shared by reference. -/
  | classType (id : TypeId)
  deriving DecidableEq

namespace Ty

abbrev bool : Ty := primitive .bool
abbrev int32 : Ty := primitive .int32
abbrev int64 : Ty := primitive .int64
abbrev float64 : Ty := primitive .float64
abbrev char : Ty := primitive .char

instance : Inhabited Ty := ⟨void⟩

def isVoid : Ty → Bool
  | void => true
  | _ => false

/-- Value types are copied, and have to be boxed to become a reference. -/
def isValueType : Ty → Bool
  | primitive _ | structType _ => true
  | _ => false

def isReferenceType : Ty → Bool
  | string | array | object | classType _ => true
  | _ => false

def isStruct : Ty → Bool
  | structType _ => true
  | _ => false

def isClass : Ty → Bool
  | classType _ => true
  | _ => false

def primitive? : Ty → Option Primitive
  | primitive p => some p
  | _ => none

def id? : Ty → Option TypeId
  | structType id | classType id => some id
  | _ => none

/-- Every type is void, a value type or a reference type, and only one of them. -/
theorem isReferenceType_eq (t : Ty) : t.isReferenceType = (!t.isVoid && !t.isValueType) := by
  cases t <;> rfl

theorem isValueType_of_isReferenceType {t : Ty} (reference : t.isReferenceType = true) :
    t.isValueType = false := by
  cases t <;> first | rfl | cases reference

end Ty

end MemberAccess
