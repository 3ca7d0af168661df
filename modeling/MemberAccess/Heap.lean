import MemberAccess.Value

/-!
The store shared by all invocations: objects and arrays by address, and the cells of static fields.
Addresses are handed out in order and never reused, so equal references mean the same cell.
-/

namespace MemberAccess

structure Heap where
  /-- The slots of every object, in layout order. -/
  objects : Array (List Slot) := #[]
  arrays : Array (Array Value) := #[]
  /-- Static fields that have been accessed so far. -/
  statics : List (Field × Slot) := []

namespace Heap

def alloc (h : Heap) (type : Ty) (slots : List Slot) : ObjectRef × Heap :=
  (⟨type, h.objects.size⟩, { h with objects := h.objects.push slots })

def slots? (h : Heap) (o : ObjectRef) : Option (List Slot) :=
  h.objects[o.address]?

def slots (h : Heap) (o : ObjectRef) : List Slot :=
  (h.slots? o).getD []

def load? (h : Heap) (o : ObjectRef) (index : Nat) : Option Slot :=
  (h.slots o)[index]?

/-- Overwrites one slot; out of range there is nothing to overwrite. -/
def store (h : Heap) (o : ObjectRef) (index : Nat) (s : Slot) : Heap :=
  { h with objects := h.objects.modify o.address (·.set index s) }

/-- The contents of an object as an unboxed value of its type. -/
def copyOut (h : Heap) (o : ObjectRef) : Slot :=
  .struct o.type (h.slots o)

def newArray (h : Heap) (items : Array Value) : ArrayRef × Heap :=
  (⟨h.arrays.size⟩, { h with arrays := h.arrays.push items })

def items (h : Heap) (a : ArrayRef) : Array Value :=
  h.arrays[a.address]?.getD #[]

def setItem (h : Heap) (a : ArrayRef) (index : Nat) (v : Value) : Heap :=
  { h with arrays := h.arrays.modify a.address (·.setIfInBounds index v) }

def static? (h : Heap) (f : Field) : Option Slot :=
  h.statics.lookup f

def setStatic (h : Heap) (f : Field) (s : Slot) : Heap :=
  { h with statics := (f, s) :: h.statics.filter (·.1 != f) }

@[simp] theorem slots?_alloc_self (h : Heap) (t : Ty) (slots : List Slot) :
    (h.alloc t slots).2.slots? (h.alloc t slots).1 = some slots := by
  simp [alloc, slots?]

@[simp] theorem copyOut_alloc_self (h : Heap) (t : Ty) (slots : List Slot) :
    (h.alloc t slots).2.copyOut (h.alloc t slots).1 = .struct t slots := by
  rw [copyOut, Heap.slots, slots?_alloc_self]
  rfl

/-- An allocation changes no object that is there already. -/
theorem slots?_alloc_of_some {h : Heap} {o : ObjectRef} {old : List Slot} (t : Ty)
    (slots : List Slot) (found : h.slots? o = some old) :
    (h.alloc t slots).2.slots? o = some old := by
  obtain ⟨bound, same⟩ := Array.getElem?_eq_some_iff.mp found
  simp [alloc, slots?, Array.getElem?_push_lt bound, same]

theorem slots?_store (h : Heap) (o : ObjectRef) (index : Nat) (s : Slot) :
    (h.store o index s).slots? o = (h.slots? o).map (·.set index s) := by
  simp [store, slots?, Array.getElem?_modify]

/-- A store changes no other object. -/
theorem slots?_store_of_ne {o other : ObjectRef} (h : Heap) (index : Nat) (s : Slot)
    (ne : o.address ≠ other.address) : (h.store o index s).slots? other = h.slots? other := by
  simp [store, slots?, Array.getElem?_modify, ne]

theorem address_lt_size {h : Heap} {o : ObjectRef} {index : Nat}
    (bound : index < (h.slots o).length) : o.address < h.objects.size := by
  unfold slots slots? at bound
  rcases Nat.lt_or_ge o.address h.objects.size with below | outside
  · exact below
  · rw [Array.getElem?_eq_none outside] at bound
    cases bound

theorem load?_store_self {h : Heap} {o : ObjectRef} {index : Nat} (s : Slot)
    (bound : index < (h.slots o).length) : (h.store o index s).load? o index = some s := by
  unfold slots at bound
  cases found : h.slots? o with
  | none => simp [found] at bound
  | some old =>
    rw [found, Option.getD_some] at bound
    rw [load?, slots, slots?_store, found, Option.map_some, Option.getD_some,
      List.getElem?_set_self bound]

/-- A store changes no other slot. -/
theorem load?_store_of_ne {o other : ObjectRef} {index index' : Nat} (h : Heap) (s : Slot)
    (ne : o.address = other.address → index ≠ index') :
    (h.store o index s).load? other index' = h.load? other index' := by
  unfold load? slots
  by_cases same : o.address = other.address
  · have found : (h.store o index s).slots? other = (h.slots? other).map (·.set index s) := by
      simp [store, slots?, Array.getElem?_modify, same]
    rw [found]
    cases h.slots? other with
    | none => rfl
    | some old => exact List.getElem?_set_ne (ne same)
  · rw [slots?_store_of_ne h index s same]

@[simp] theorem items_newArray_self (h : Heap) (items : Array Value) :
    (h.newArray items).2.items (h.newArray items).1 = items := by
  simp [newArray, Heap.items]

@[simp] theorem items_setItem_self (h : Heap) (a : ArrayRef) (index : Nat) (v : Value) :
    (h.setItem a index v).items a = (h.items a).setIfInBounds index v := by
  cases found : h.arrays[a.address]? <;>
    simp [setItem, Heap.items, Array.getElem?_modify, found]

theorem items_setItem_of_ne {a other : ArrayRef} (h : Heap) (index : Nat) (v : Value)
    (ne : a.address ≠ other.address) : (h.setItem a index v).items other = h.items other := by
  simp [setItem, Heap.items, Array.getElem?_modify, ne]

@[simp] theorem static?_setStatic_self (h : Heap) (f : Field) (s : Slot) :
    (h.setStatic f s).static? f = some s := by
  simp [setStatic, static?]

theorem static?_setStatic_of_ne {f other : Field} (h : Heap) (s : Slot) (ne : other ≠ f) :
    (h.setStatic f s).static? other = h.static? other := by
  simp only [setStatic, static?, List.lookup_cons, beq_false_of_ne ne]
  induction h.statics with
  | nil => rfl
  | cons cell rest ih =>
    rcases cell with ⟨g, _⟩
    by_cases same : g = f
    · subst same
      simpa [List.lookup_cons, beq_false_of_ne ne] using ih
    · by_cases hit : other = g <;> simp [List.lookup_cons, same, hit, ih]

end Heap

end MemberAccess
