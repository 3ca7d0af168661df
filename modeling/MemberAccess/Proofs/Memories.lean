import MemberAccess.Proofs.FieldAgreement
import MemberAccess.Proofs.Layouts

/-!
Stores together with what their objects were made as. An object is reached only through references
that know its type, and a reference is genuine if the object was made as just that. Everything that
members can do to a store is a sequence of a few acts, and these hand out genuine references only.
-/

namespace MemberAccess

/-- A store, and by address the type that each object was made as. -/
structure Memory where
  heap : Heap := {}
  types : Array Ty := #[]

def Value.Genuine (types : Array Ty) : Value → Prop
  | .object o => types[o.address]? = some o.type
  | _ => True

/-- Whether a slot refers to objects, also from within structs, as what they were made as. -/
inductive Slot.Genuine (types : Array Ty) : Slot → Prop
  | bool (b : Bool) : Genuine types (.bool b)
  | int32 (n : Int32) : Genuine types (.int32 n)
  | int64 (n : Int64) : Genuine types (.int64 n)
  | float64 (x : Float) : Genuine types (.float64 x)
  | char (c : Char) : Genuine types (.char c)
  | struct (t : Ty) {fields : List Slot} (each : ∀ s ∈ fields, Slot.Genuine types s) :
      Genuine types (.struct t fields)
  | ref {v : Value} (genuine : v.Genuine types) : Genuine types (.ref v)

/-- Whether every object is still what it was made as. -/
def Memory.Keeps (m m' : Memory) : Prop :=
  ∀ (a : Nat) (t : Ty), m.types[a]? = some t → m'.types[a]? = some t

theorem Memory.Keeps.refl (m : Memory) : m.Keeps m := fun _ _ => id

theorem Memory.Keeps.trans {m m' m'' : Memory} (first : m.Keeps m') (second : m'.Keeps m'') :
    m.Keeps m'' :=
  fun a t made => second a t (first a t made)

theorem Value.Genuine.keeps {m m' : Memory} {v : Value} (genuine : v.Genuine m.types)
    (keeps : m.Keeps m') : v.Genuine m'.types := by
  cases v with
  | object o => exact keeps _ _ genuine
  | _ => exact True.intro

theorem Slot.Genuine.keeps {m m' : Memory} {s : Slot} (genuine : s.Genuine m.types)
    (keeps : m.Keeps m') : s.Genuine m'.types := by
  induction genuine with
  | struct t each ih => exact .struct t ih
  | ref genuine => exact .ref (genuine.keeps keeps)
  | bool b => exact .bool b
  | int32 n => exact .int32 n
  | int64 n => exact .int64 n
  | float64 x => exact .float64 x
  | char c => exact .char c

theorem Slot.Genuine.value {types : Array Ty} {v : Value} (genuine : (Slot.ref v).Genuine types) :
    v.Genuine types := by
  cases genuine with
  | ref genuine => exact genuine

theorem Slot.Genuine.null (types : Array Ty) : Slot.null.Genuine types := .ref True.intro

/-- Defaults refer to nothing. -/
theorem Registry.initial_genuine (r : Registry) (t : Ty) (types : Array Ty) :
    (r.initial t).Genuine types := by
  unfold initial
  generalize r.types.size = depth
  induction depth generalizing t with
  | zero =>
    cases t with
    | primitive p => cases p <;> constructor
    | structType id => exact .struct _ fun _ mem => absurd mem List.not_mem_nil
    | _ => exact .null types
  | succ depth ih =>
    cases t with
    | primitive p => cases p <;> constructor
    | structType id =>
      refine .struct _ fun s mem => ?_
      obtain ⟨u, _, rfl⟩ := List.mem_map.mp mem
      exact ih u
    | _ => exact .null types

namespace Field

variable {r : Registry} {f : Field}

theorem of_receiver_eq_ok {v : Value} {o : ObjectRef} (accepted : f.receiver r v = .ok o) :
    v = .object o ∧ r.assignable f.declaring o.type = true := by
  cases v with
  | object o' =>
    unfold receiver at accepted
    by_cases assignable : r.assignable f.declaring o'.type = true
    · simp only [if_pos assignable] at accepted
      cases accepted
      exact ⟨rfl, assignable⟩
    · simp only [if_neg assignable] at accepted
      cases accepted
  | _ => cases accepted

/-- All that a store into a field can do. -/
inductive Stores (r : Registry) (f : Field) (v : Value) (s : Slot) (h : Heap) : Heap → Prop
  | nothing : Stores r f v s h h
  | static (storage : f.storage = .static) (fits : s.fits r f.type = true) :
      Stores r f v s h (h.setStatic f s)
  | slot (index : Nat) (o : ObjectRef) (storage : f.storage = .slot index)
      (fits : s.fits r f.type = true) (accepted : f.receiver r v = .ok o)
      (bound : index < (h.slots o).length) : Stores r f v s h (h.store o index s)

theorem stores (r : Registry) (f : Field) (v : Value) (s : Slot) (h : Heap) :
    f.Stores r v s h (f.store r v s h).2 := by
  unfold store
  by_cases fits : s.fits r f.type = true
  · rw [if_pos fits]
    cases storage : f.storage with
    | static => exact .static storage fits
    | slot index =>
      cases accepted : f.receiver r v with
      | error e => exact .nothing
      | ok o =>
        by_cases bound : index < (h.slots o).length
        · simp only [Run.bind_apply, Run.ofExcept_apply, Run.get_apply, if_pos bound]
          exact .slot index o storage fits accepted bound
        · simp only [Run.bind_apply, Run.ofExcept_apply, Run.get_apply, if_neg bound]
          exact .nothing
  · rw [if_neg fits]
    exact .nothing

end Field

namespace Memory

/-- Whether all references in a store are genuine. -/
structure Genuine (m : Memory) : Prop where
  size : m.types.size = m.heap.objects.size
  objects : ∀ (a : Nat) (slots : List Slot), m.heap.objects[a]? = some slots →
    ∀ s ∈ slots, s.Genuine m.types
  arrays : ∀ (a : Nat) (items : Array Value), m.heap.arrays[a]? = some items →
    ∀ v ∈ items, v.Genuine m.types
  statics : ∀ f s, m.heap.static? f = some s → s.Genuine m.types

/-- What can be done to a store in one go. Slots are overwritten only through declared fields and
only with what fits these. -/
inductive Act (r : Registry) (m : Memory) : Memory → Prop
  | alloc (t : Ty) : Act r m ⟨(m.heap.alloc t (r.initialSlots t)).2, m.types.push t⟩
  | box (t : Ty) (fields : List Slot) (struct : t.isStruct = true)
      (genuine : ∀ s ∈ fields, s.Genuine m.types) :
      Act r m ⟨(m.heap.alloc t fields).2, m.types.push t⟩
  | newArray (items : Array Value) (genuine : ∀ v ∈ items, v.Genuine m.types) :
      Act r m ⟨(m.heap.newArray items).2, m.types⟩
  | setItem (a : ArrayRef) (index : Nat) (v : Value) (genuine : v.Genuine m.types) :
      Act r m ⟨m.heap.setItem a index v, m.types⟩
  | readStatic (f : Field) (declared : r.Declares f) :
      Act r m ⟨(m.heap.readStatic r f).2, m.types⟩
  | store (f : Field) (v : Value) (s : Slot) (declared : r.Declares f)
      (genuine : v.Genuine m.types) (genuine' : s.Genuine m.types) :
      Act r m ⟨(f.store r v s m.heap).2, m.types⟩

inductive Acts (r : Registry) (m : Memory) : Memory → Prop
  | refl : Acts r m m
  | step {m' m'' : Memory} (first : Acts r m m') (act : Act r m' m'') : Acts r m m''

namespace Acts

variable {r : Registry} {m m' m'' : Memory}

theorem single (act : Act r m m') : Acts r m m' := .step .refl act

theorem trans (first : Acts r m m') (second : Acts r m' m'') : Acts r m m'' := by
  induction second with
  | refl => exact first
  | step _ act ih => exact .step ih act

end Acts

theorem keeps_push (m : Memory) (h : Heap) (t : Ty) : m.Keeps ⟨h, m.types.push t⟩ := by
  intro a u made
  obtain ⟨bound, same⟩ := Array.getElem?_eq_some_iff.mp made
  simp [Array.getElem?_push_lt bound, same]

theorem Act.keeps {r : Registry} {m m' : Memory} (act : Act r m m') : m.Keeps m' := by
  cases act with
  | alloc t => exact m.keeps_push _ t
  | box t fields struct genuine => exact m.keeps_push _ t
  | _ => exact .refl m

theorem Acts.keeps {r : Registry} {m m' : Memory} (acts : Acts r m m') : m.Keeps m' := by
  induction acts with
  | refl => exact .refl m
  | step first act ih => exact ih.trans act.keeps

namespace Genuine

variable {m : Memory} (genuine : m.Genuine)

include genuine

theorem alloc (t : Ty) {slots : List Slot} (each : ∀ s ∈ slots, s.Genuine m.types) :
    Genuine ⟨(m.heap.alloc t slots).2, m.types.push t⟩ := by
  have keeps := m.keeps_push (m.heap.alloc t slots).2 t
  refine ⟨?_, fun a old found s mem => ?_, fun a items found v mem => ?_, fun f s found => ?_⟩
  · simp [Heap.alloc, genuine.size]
  · simp only [Heap.alloc, Array.getElem?_push] at found
    by_cases last : a = m.heap.objects.size
    · rw [if_pos last] at found
      cases found
      exact (each s mem).keeps keeps
    · rw [if_neg last] at found
      exact (genuine.objects a old found s mem).keeps keeps
  · exact (genuine.arrays a items found v mem).keeps keeps
  · exact (genuine.statics f s found).keeps keeps

theorem setStatic (f : Field) {s : Slot} (stored : s.Genuine m.types) :
    Genuine ⟨m.heap.setStatic f s, m.types⟩ where
  size := genuine.size
  objects := genuine.objects
  arrays := genuine.arrays
  statics g s' found := by
    by_cases same : g = f
    · subst same
      rw [Heap.static?_setStatic_self] at found
      cases found
      exact stored
    · rw [Heap.static?_setStatic_of_ne _ _ same] at found
      exact genuine.statics g s' found

theorem storeSlot (o : ObjectRef) (index : Nat) {s : Slot} (stored : s.Genuine m.types) :
    Genuine ⟨m.heap.store o index s, m.types⟩ where
  size := by simp [Heap.store, genuine.size]
  objects a slots found s' mem := by
    simp only [Heap.store, Array.getElem?_modify] at found
    by_cases same : o.address = a
    · rw [if_pos same] at found
      obtain ⟨old, held, rfl⟩ := Option.map_eq_some_iff.mp found
      rcases List.mem_or_eq_of_mem_set mem with mem | rfl
      · exact genuine.objects a old held s' mem
      · exact stored
    · rw [if_neg same] at found
      exact genuine.objects a slots found s' mem
  arrays := genuine.arrays
  statics := genuine.statics

theorem newArray {items : Array Value} (each : ∀ v ∈ items, v.Genuine m.types) :
    Genuine ⟨(m.heap.newArray items).2, m.types⟩ where
  size := genuine.size
  objects := genuine.objects
  arrays a items' found v mem := by
    simp only [Heap.newArray, Array.getElem?_push] at found
    by_cases last : a = m.heap.arrays.size
    · rw [if_pos last] at found
      cases found
      exact each v mem
    · rw [if_neg last] at found
      exact genuine.arrays a items' found v mem
  statics := genuine.statics

theorem setItem (a : ArrayRef) (index : Nat) {v : Value} (stored : v.Genuine m.types) :
    Genuine ⟨m.heap.setItem a index v, m.types⟩ where
  size := genuine.size
  objects := genuine.objects
  arrays b items found w mem := by
    simp only [Heap.setItem, Array.getElem?_modify] at found
    by_cases same : a.address = b
    · rw [if_pos same] at found
      obtain ⟨old, held, rfl⟩ := Option.map_eq_some_iff.mp found
      rcases Array.mem_or_eq_of_mem_setIfInBounds mem with mem | rfl
      · exact genuine.arrays b old held w mem
      · exact stored
    · rw [if_neg same] at found
      exact genuine.arrays b items found w mem
  statics := genuine.statics

theorem act {r : Registry} {m' : Memory} (act : Act r m m') : m'.Genuine := by
  cases act with
  | alloc t =>
    refine genuine.alloc t fun s mem => ?_
    obtain ⟨u, _, rfl⟩ := List.mem_map.mp mem
    exact r.initial_genuine u m.types
  | box t fields struct each => exact genuine.alloc t each
  | newArray items each => exact genuine.newArray each
  | setItem a index v stored => exact genuine.setItem a index stored
  | readStatic f declared =>
    unfold Heap.readStatic
    cases m.heap.static? f with
    | some s => exact genuine
    | none => exact genuine.setStatic f (r.initial_genuine f.type m.types)
  | store f v s declared target stored =>
    have stores := f.stores r v s m.heap
    generalize (f.store r v s m.heap).2 = after at stores ⊢
    cases stores with
    | nothing => exact genuine
    | static storage fits => exact genuine.setStatic f stored
    | slot index o storage fits accepted bound => exact genuine.storeSlot o index stored

theorem acts {r : Registry} {m' : Memory} (acts : Acts r m m') : m'.Genuine := by
  induction acts with
  | refl => exact genuine
  | step _ act ih => exact ih.act act

end Genuine

end Memory

end MemberAccess
