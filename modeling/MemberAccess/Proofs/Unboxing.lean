import MemberAccess.Proofs.ConversionCode
import MemberAccess.Proofs.RoundTrips

/-!
Unboxing against boxing. The slots that values unbox to as a type are those that fit a location of
the type, so a store never turns one of them away, and boxing takes each of them back: a reference
or a primitive to the value that it came from, a value type with fields to a new box with the same
contents. Slots and values are equal here only if their floats are, down to the bits.
-/

namespace MemberAccess

/-- What a store does with a slot that fits. -/
def Field.place (r : Registry) (f : Field) (v : Value) (s : Slot) : RunM Unit :=
  match f.storage with
  | .static => modify (·.setStatic f s)
  | .slot index => do
    let o ← Run.ofExcept (f.receiver r v)
    if index < ((← get).slots o).length then modify (·.store o index s)
    else throw (f.slotMissing r index)

theorem Field.store_of_fits {r : Registry} {f : Field} {s : Slot} (fits : s.fits r f.type = true)
    (v : Value) : f.store r v s = f.place r v s := if_pos fits

theorem Value.type_ne_void_of_unbox {r : Registry} {v : Value} {t : Ty} {s : Slot} {h h' : Heap}
    (unboxed : v.unbox r t h = (.ok s, h')) : t ≠ .void := by
  rintro rfl
  rw [Value.unbox_void] at unboxed
  cases unboxed

/-- A box that is returned for another one is new, and holds what the other one held. -/
theorem Value.Returned.isNew {w v : Value} {t : Ty} {given before after : Heap} (r : Registry)
    (struct : t.isStruct = true) (returned : w.Returned t v given before after) :
    ∃ o b, v = .object o ∧ w = .object b ∧ before.slots? b = none ∧
      after.slots? b = some (given.slots o) ∧ before.Keeps r after := by
  rw [Value.Returned, if_pos struct] at returned
  obtain ⟨o, rfl, rfl, rfl⟩ := returned
  refine ⟨o, _, rfl, rfl, ?_, Heap.slots?_alloc_self before t (given.slots o), .alloc r before t _⟩
  exact Array.getElem?_eq_none (Nat.le_refl _)

namespace Slot

variable {r : Registry} {s : Slot} {t : Ty}

theorem type_ne_void_of_fits (fits : s.fits r t = true) : t ≠ .void := by
  rintro rfl
  cases s <;> cases fits

/-- What fits a type can be boxed as that type. -/
theorem box_of_fits (fits : s.fits r t = true) (before : Heap) :
    ∃ w after, s.box r t before = (.ok w, after) := by
  have reference (isReference : t.isReferenceType = true) :
      ∃ w after, s.box r t before = (.ok w, after) := by
    obtain ⟨v, rfl⟩ := ref_of_fits isReference fits
    cases t <;> first | cases isReference; done | exact ⟨v, before, rfl⟩
  cases t with
  | void => exact absurd rfl (type_ne_void_of_fits fits)
  | primitive p =>
    cases p <;> cases s <;> first | cases fits; done | exact ⟨_, before, rfl⟩
  | structType id =>
    cases s with
    | struct u fields =>
      obtain rfl : u = .structType id := by simpa [Slot.fits, Ty.isStruct] using fits
      simp only [box, if_pos, Run.modifyGet_apply]
      exact ⟨_, _, rfl⟩
    | _ => cases fits
  | _ => exact reference rfl

/-- What fits is handed over as it is boxed. -/
theorem mapError_handOver_of_fits (fits : s.fits r t = true) :
    (s.handOver r t).mapError Code.ExecError.toInvokeError = s.box r t :=
  s.mapError_handOver r (type_ne_void_of_fits fits) fun reference => ref_of_fits reference fits

/-- The value that a slot was boxed to unboxes to the slot. -/
theorem unbox_of_box {w : Value} {before after : Heap} (fits : s.fits r t = true)
    (boxed : s.box r t before = (.ok w, after)) : w.unbox r t after = (.ok s, after) := by
  rw [← mapError_handOver_of_fits fits] at boxed
  exact unbox_of_handOver (type_ne_void_of_fits fits) fits boxed

/-- A slot that a value was unboxed to is boxed to that value, or to a new box of the same. -/
theorem box_of_unbox {v : Value} {given kept : Heap} (unboxed : v.unbox r t given = (.ok s, kept))
    (before : Heap) :
    ∃ w after, s.box r t before = (.ok w, after) ∧ w.Returned t v given before after := by
  rw [← mapError_handOver_of_fits (Value.unbox_fits unboxed)]
  exact handOver_of_unbox (Value.type_ne_void_of_unbox unboxed) unboxed before

end Slot

/-- A value that unboxes to a slot leaves the store as it is, the slot fits the type, and on every
store it is boxed to the value again, or for a value type with fields to a new box with the contents
that the value had. No store to a field of the type turns the slot away. Conversely, what fits the
type can be boxed on every store, to a value that unboxes to the same slot. To `Void` nothing
unboxes, and nothing fits it. -/
theorem boxing_inverse (r : Registry) (t : Ty) :
    (∀ v s given kept, v.unbox r t given = (.ok s, kept) →
      kept = given ∧ s.fits r t = true ∧
      (∀ before, ∃ w after, s.box r t before = (.ok w, after) ∧
        if t.isStruct then
          ∃ o b, v = .object o ∧ w = .object b ∧ before.slots? b = none ∧
            after.slots? b = some (given.slots o) ∧ before.Keeps r after
        else w = v ∧ after = before) ∧
      ∀ f : Field, f.type = t → ∀ target, f.store r target s = f.place r target s) ∧
    ∀ (s : Slot) (before : Heap), s.fits r t = true →
      ∃ w after, s.box r t before = (.ok w, after) ∧ w.unbox r t after = (.ok s, after) := by
  refine ⟨fun v s given kept unboxed => ?_, fun s before fits => ?_⟩
  · have fits := Value.unbox_fits unboxed
    refine ⟨(v.unbox_reads r t).eq_of_ok unboxed, fits, fun before => ?_, ?_⟩
    · obtain ⟨w, after, boxed, returned⟩ := Slot.box_of_unbox unboxed before
      refine ⟨w, after, boxed, ?_⟩
      by_cases struct : t.isStruct = true
      · rw [if_pos struct]
        exact returned.isNew r struct
      · rw [Value.Returned, if_neg struct] at returned
        rw [if_neg struct]
        exact returned
    · rintro f rfl target
      exact Field.store_of_fits fits target
  · obtain ⟨w, after, boxed⟩ := Slot.box_of_fits fits before
    exact ⟨w, after, boxed, Slot.unbox_of_box fits boxed⟩

namespace Drawing

/-- The point in the box at the second address, unboxed. -/
def loose : Slot := .struct point [.int32 5]

end Drawing

open Drawing

/-- A point is unboxed, and boxed again at the next free address; the corner of the square takes it.
The square goes through a slot for shapes as it is, and a double that is no number through its box.
-/
theorem boxing_inverse_drawing :
    (Value.object ⟨point, 1⟩).unbox registry point memory.heap = (.ok loose, memory.heap) ∧
      (∃ w after, loose.box registry point memory.heap = (.ok w, after) ∧
        w ≠ .object ⟨point, 1⟩ ∧ w.unbox registry point after = (.ok loose, after)) ∧
      corner.type = point ∧
      corner.store registry (.object ⟨square, 0⟩) loose memory.heap = (.ok (), moved) ∧
      (Value.object ⟨square, 0⟩).unbox registry shape memory.heap =
        (.ok (.ref (.object ⟨square, 0⟩)), memory.heap) ∧
      (Slot.ref (.object ⟨square, 0⟩)).box registry shape memory.heap =
        (.ok (.object ⟨square, 0⟩), memory.heap) ∧
      (Slot.float64 (0.0 / 0.0)).fits registry .float64 = true ∧
      ∃ w after, (Slot.float64 (0.0 / 0.0)).box registry .float64 {} = (.ok w, after) ∧
        w.unbox registry .float64 after = (.ok (.float64 (0.0 / 0.0)), after) := by
  have unboxed : (Value.object ⟨point, 1⟩).unbox registry point memory.heap =
      (.ok loose, memory.heap) := rfl
  have viewed : (Value.object ⟨square, 0⟩).unbox registry shape memory.heap =
      (.ok (.ref (.object ⟨square, 0⟩)), memory.heap) := rfl
  have double : (Slot.float64 (0.0 / 0.0)).fits registry .float64 = true := rfl
  obtain ⟨fromPoint, toPoint⟩ := boxing_inverse registry point
  obtain ⟨_, fits, boxed, stored⟩ := fromPoint _ _ _ _ unboxed
  obtain ⟨_, _, references, _⟩ := (boxing_inverse registry shape).1 _ _ _ _ viewed
  obtain ⟨w, after, isBoxed, o, b, same, rfl, fresh, _⟩ := boxed memory.heap
  obtain ⟨v, later, again, rfl, rfl⟩ := references memory.heap
  refine ⟨unboxed, ⟨_, after, isBoxed, ?_, ?_⟩, rfl, (congrFun (stored corner rfl _) _).trans rfl,
    viewed, again, double, (boxing_inverse registry .float64).2 _ {} double⟩
  · rintro taken
    cases taken
    cases fresh
  · obtain ⟨v, later, again, back⟩ := toPoint loose memory.heap fits
    rw [isBoxed] at again
    cases again
    exact back

end MemberAccess
