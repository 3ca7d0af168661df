import MemberAccess.Heap
import MemberAccess.InvokeError

/-!
Computations on the store. What a computation did before it failed stays done, so running one gives
the store it leaves whether it fails or not.
-/

namespace MemberAccess

/-- A computation on the store that may fail; what it did before failing stays done. -/
abbrev Run (ε : Type) := ExceptT ε (StateM Heap)

abbrev RunM := Run InvokeError

namespace Run

/-- Changes the kind of error, and nothing else. -/
def mapError (f : ε → δ) (x : Run ε α) : Run δ α :=
  fun h =>
    match x h with
    | (.ok a, h) => (.ok a, h)
    | (.error e, h) => (.error (f e), h)

def ofExcept (x : Except ε α) : Run ε α :=
  fun h => (x, h)

@[simp] theorem pure_apply (a : α) (h : Heap) : (pure a : Run ε α) h = (.ok a, h) := rfl

@[simp] theorem throw_apply (e : ε) (h : Heap) : (throw e : Run ε α) h = (.error e, h) := rfl

@[simp] theorem get_apply (h : Heap) : (get : Run ε Heap) h = (.ok h, h) := rfl

@[simp] theorem modify_apply (f : Heap → Heap) (h : Heap) :
    (modify f : Run ε PUnit) h = (.ok ⟨⟩, f h) := rfl

@[simp] theorem modifyGet_apply (f : Heap → α × Heap) (h : Heap) :
    (modifyGet f : Run ε α) h = (.ok (f h).1, (f h).2) := rfl

@[simp] theorem ofExcept_apply (x : Except ε α) (h : Heap) : ofExcept x h = (x, h) := rfl

@[simp] theorem ofExcept_ok (a : α) : (ofExcept (.ok a) : Run ε α) = pure a := rfl

@[simp] theorem ofExcept_error (e : ε) : (ofExcept (.error e) : Run ε α) = throw e := rfl

/-- The second computation runs on the store that the first one leaves, if that has not failed. -/
theorem bind_apply (x : Run ε α) (f : α → Run ε β) (h : Heap) :
    (x >>= f) h =
      match x h with
      | (.ok a, h) => f a h
      | (.error e, h) => (.error e, h) := by
  show (ExceptT.bind x f) h = _
  simp only [ExceptT.bind, ExceptT.mk, bind, StateT.bind, ExceptT.bindCont]
  rcases x h with ⟨_ | _, _⟩ <;> rfl

@[simp] theorem mapError_pure (f : ε → δ) (a : α) : (pure a : Run ε α).mapError f = pure a := rfl

@[simp] theorem mapError_throw (f : ε → δ) (e : ε) :
    (throw e : Run ε α).mapError f = throw (f e) := rfl

theorem mapError_bind (f : ε → δ) (x : Run ε α) (g : α → Run ε β) :
    (x >>= g).mapError f = x.mapError f >>= fun a => (g a).mapError f := by
  funext h
  simp only [mapError, bind_apply]
  rcases x h with ⟨_ | _, _⟩ <;> rfl

end Run

end MemberAccess
