import MemberAccess.Ty

/-!
Descriptors of members. A descriptor names its declaring type and its place among the members of
its kind there, so two descriptors are the same member exactly if they are equal.
-/

namespace MemberAccess

structure Flags where
  /-- Visible outside the declaring type. -/
  isPublic : Bool := false
  /-- Belongs to the type and not to an instance. -/
  isStatic : Bool := false
  /-- Resolved against the runtime type of the receiver. -/
  isVirtual : Bool := false
  deriving DecidableEq

structure Param where
  name : String
  type : Ty
  byRef : Bool := false
  deriving DecidableEq

/-- Parameters match types one by one; how an argument is passed does not count. -/
def Param.matchTypes (params : List Param) (types : List Ty) : Bool :=
  params.map Param.type == types

inductive Storage
  /-- One cell for the whole type. -/
  | static
  /-- The slot with this index in every instance. -/
  | slot (index : Nat)
  deriving DecidableEq

structure Field where
  declaring : Ty
  ordinal : Nat
  name : String
  type : Ty
  isPublic : Bool
  isVirtual : Bool
  storage : Storage
  deriving DecidableEq

namespace Field

def isStatic (f : Field) : Bool :=
  match f.storage with
  | .static => true
  | .slot _ => false

def slotIndex? (f : Field) : Option Nat :=
  match f.storage with
  | .static => none
  | .slot index => some index

def flags (f : Field) : Flags := ⟨f.isPublic, f.isStatic, f.isVirtual⟩

theorem isStatic_of_static {f : Field} (storage : f.storage = .static) : f.isStatic = true := by
  rw [isStatic, storage]

theorem isStatic_of_slot {f : Field} {index : Nat} (storage : f.storage = .slot index) :
    f.isStatic = false := by
  rw [isStatic, storage]

theorem exists_slot {f : Field} (isInstance : f.isStatic = false) :
    ∃ index, f.storage = .slot index := by
  cases storage : f.storage with
  | static =>
    rw [isStatic_of_static storage] at isInstance
    cases isInstance
  | slot index => exact ⟨index, rfl⟩

theorem slotIndex?_eq_some {f : Field} {index : Nat} :
    f.slotIndex? = some index ↔ f.storage = .slot index := by
  cases storage : f.storage <;> simp [slotIndex?, storage]

end Field

structure Method where
  declaring : Ty
  ordinal : Nat
  name : String
  params : List Param
  returns : Ty
  flags : Flags
  deriving DecidableEq

namespace Method

def isStatic (m : Method) : Bool := m.flags.isStatic
def isPublic (m : Method) : Bool := m.flags.isPublic
def isVirtual (m : Method) : Bool := m.flags.isVirtual

/-- Equality of name, return type and parameter types. -/
def sameSignature (m base : Method) : Bool :=
  m.name == base.name && m.returns == base.returns &&
    m.params.map Param.type == base.params.map Param.type

/-- Only virtual instance methods take the place of another method. -/
def overrides (m base : Method) : Bool :=
  m.isVirtual && !m.isStatic && m.sameSignature base

theorem overrides_iff {m base : Method} :
    m.overrides base = true ↔
      m.isVirtual = true ∧ m.isStatic = false ∧ m.name = base.name ∧ m.returns = base.returns ∧
        m.params.map Param.type = base.params.map Param.type := by
  simp [overrides, sameSignature, and_assoc]

end Method

structure Constructor where
  declaring : Ty
  ordinal : Nat
  params : List Param
  flags : Flags
  deriving DecidableEq

def Constructor.isPublic (c : Constructor) : Bool := c.flags.isPublic

/-- A pair of optional accessor methods; with index parameters it is an indexer. -/
structure Property where
  declaring : Ty
  ordinal : Nat
  name : String
  type : Ty
  index : List Param
  getter? : Option Method
  setter? : Option Method
  deriving DecidableEq

end MemberAccess
