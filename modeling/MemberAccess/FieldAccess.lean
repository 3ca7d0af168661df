import MemberAccess.Conversion

/-!
Reading and writing fields. An instance field needs a receiver whose type derives from the declaring
type; a static field takes any receiver and looks at none. Nothing is converted here: a stored slot
has to conform to the type of the field already.
-/

namespace MemberAccess

/-- The cell of a static field. It is filled with the default of the field's type when it is first
read, by which time that type has its final layout. -/
def Heap.readStatic (r : Registry) (h : Heap) (f : Field) : Slot × Heap :=
  match h.static? f with
  | some s => (s, h)
  | none =>
    let s := r.initial f.type
    (s, h.setStatic f s)

namespace Field

def slotMissing (r : Registry) (f : Field) (index : Nat) : InvokeError :=
  .invalidProgram s!"slot {index} missing for field {r.fieldLabel f}"

def receiver (r : Registry) (f : Field) : Value → Except InvokeError ObjectRef
  | .object o =>
    if r.assignable f.declaring o.type then .ok o
    else .error (.invalidCast (r.name f.declaring) (r.name o.type))
  | .null => .error (.nullReference s!"instance for field {r.fieldLabel f}")
  | v => .error (.invalidCast (r.name f.declaring) (v.typeName r))

def load (r : Registry) (f : Field) (v : Value) : RunM Slot :=
  match f.storage with
  | .static => modifyGet (·.readStatic r f)
  | .slot index => do
    let o ← Run.ofExcept (f.receiver r v)
    match (← get).load? o index with
    | some s => pure s
    | none => throw (f.slotMissing r index)

/-- Reads the field out of an unboxed value of type `t`. -/
def loadUnboxed (r : Registry) (f : Field) (t : Ty) (fields : List Slot) : RunM Slot :=
  match f.storage with
  | .static => modifyGet (·.readStatic r f)
  | .slot index =>
    if t = f.declaring then
      match fields[index]? with
      | some s => pure s
      | none => throw (f.slotMissing r index)
    else throw (.invalidCast (r.name f.declaring) (r.name t))

def store (r : Registry) (f : Field) (v : Value) (s : Slot) : RunM Unit :=
  if s.fits r f.type then
    match f.storage with
    | .static => modify (·.setStatic f s)
    | .slot index => do
      let o ← Run.ofExcept (f.receiver r v)
      if index < ((← get).slots o).length then modify (·.store o index s)
      else throw (f.slotMissing r index)
  else throw (.invalidCast (r.name f.type) (s.kindText r))

end Field

end MemberAccess
