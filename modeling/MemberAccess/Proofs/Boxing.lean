import MemberAccess.Proofs.Answers
import MemberAccess.Reflection

/-!
Conversions on the two ways of invoking a member. Unboxing only reads the store, boxing and the
first access to a static field only add to it, and the arguments of a call with the right count
convert alike on both ways.
-/

namespace MemberAccess

open Code Invoker

namespace Heap

/-- Whether nothing that was there has changed: objects keep their slots, arrays their items, and a
static field reads as before, whether its cell was filled by then or not. -/
structure Keeps (r : Registry) (before after : Heap) : Prop where
  objects : ∀ o slots, before.slots? o = some slots → after.slots? o = some slots
  arrays : after.arrays = before.arrays
  statics : ∀ f, (after.readStatic r f).1 = (before.readStatic r f).1

theorem fst_readStatic (r : Registry) (h : Heap) (f : Field) :
    (h.readStatic r f).1 = (h.static? f).getD (r.initial f.type) := by
  unfold readStatic
  cases h.static? f <;> rfl

namespace Keeps

variable (r : Registry)

theorem refl (h : Heap) : h.Keeps r h := ⟨fun _ _ found => found, rfl, fun _ => rfl⟩

theorem trans (before middle after : Heap) (first : before.Keeps r middle)
    (second : middle.Keeps r after) : before.Keeps r after where
  objects o slots found := second.objects o slots (first.objects o slots found)
  arrays := second.arrays.trans first.arrays
  statics f := (second.statics f).trans (first.statics f)

theorem load? {r : Registry} {h h' : Heap} (kept : h.Keeps r h') {o : ObjectRef} {index : Nat}
    {s : Slot} (found : h.load? o index = some s) : h'.load? o index = some s := by
  unfold Heap.load? slots at found ⊢
  cases held : h.slots? o with
  | none =>
    rw [held] at found
    cases found
  | some slots =>
    rw [kept.objects o slots held]
    rwa [held] at found

theorem alloc (h : Heap) (t : Ty) (slots : List Slot) : h.Keeps r (h.alloc t slots).2 where
  objects _ _ found := slots?_alloc_of_some t slots found
  arrays := rfl
  statics f := by
    rw [fst_readStatic, fst_readStatic]
    rfl

theorem readStatic (h : Heap) (f : Field) : h.Keeps r (h.readStatic r f).2 := by
  unfold Heap.readStatic
  cases found : h.static? f with
  | some s => exact refl r h
  | none =>
    refine ⟨fun _ _ found => found, rfl, fun g => ?_⟩
    rw [fst_readStatic, fst_readStatic]
    by_cases same : g = f
    · subst same
      rw [static?_setStatic_self, found]
      rfl
    · rw [static?_setStatic_of_ne h _ same]

end Keeps

end Heap

/-- Whether `v` is a box of type `t` that was added to `before`, and nothing else was done. -/
def Value.NewBox (v : Value) (t : Ty) (before after : Heap) : Prop :=
  ∃ fields, v = .object (before.alloc t fields).1 ∧ after = (before.alloc t fields).2

theorem Value.unbox_reads (r : Registry) (v : Value) (t : Ty) : (v.unbox r t).Reads := by
  unfold Value.unbox
  split
  case h_7 =>
    split
    · exact .bind .get fun _ => .pure _
    · exact .throw _
  all_goals first | exact .pure _ | exact .throw _ | exact .ofExcept _

/-- A box of a struct is new, and has the fields of the struct. -/
theorem Slot.box_newBox {r : Registry} {s : Slot} {t : Ty} (struct : t.isStruct = true)
    {before after : Heap} {v : Value} (result : s.box r t before = (.ok v, after)) :
    v.NewBox t before after := by
  cases t with
  | structType id =>
    cases s with
    | struct u fields =>
      by_cases same : u = .structType id
      · subst same
        simp only [Slot.box, if_pos, Run.modifyGet_apply] at result
        cases result
        exact ⟨fields, rfl, rfl⟩
      · simp only [Slot.box, if_neg same] at result
        cases result
    | ref v => cases result
    | _ => cases result
  | _ => cases struct

theorem Slot.box_keeps (r : Registry) (s : Slot) (t : Ty) :
    (s.box r t).Respects (Heap.Keeps r) := by
  unfold Slot.box
  split
  case h_6 id u fields =>
    split
    · exact fun h => .alloc r h u fields
    · exact Run.Reads.respects (.refl r) (.throw _)
  case h_7 =>
    split
    · exact Run.Reads.respects (.refl r) (.pure _)
    · exact Run.Reads.respects (.refl r) (.throw _)
  all_goals
    first
    | exact Run.Reads.respects (.refl r) (.pure _)
    | exact Run.Reads.respects (.refl r) (.throw _)

/-- A reference is boxed as it is. -/
theorem Slot.box_ref_eq_ok {r : Registry} {v w : Value} {t : Ty} {before after : Heap}
    (result : (Slot.ref v).box r t before = (.ok w, after)) : w = v := by
  cases t with
  | primitive p => cases p <;> cases result
  | void => cases result
  | structType id => cases result
  | _ =>
    cases result
    rfl

/-- A routine hands over what boxing gives, if there is a reference where the type wants one. -/
theorem Slot.mapError_handOver (r : Registry) {s : Slot} {t : Ty} (typed : t ≠ .void)
    (reference : t.isReferenceType = true → ∃ v, s = .ref v) :
    (s.handOver r t).mapError ExecError.toInvokeError = s.box r t := by
  unfold Slot.handOver
  by_cases valueType : t.isValueType
  · rw [if_pos valueType, ExecM.mapError_run]
  · have isReference : t.isReferenceType = true := by
      cases t <;> simp_all [Ty.isReferenceType, Ty.isValueType]
    obtain ⟨v, rfl⟩ := reference isReference
    rw [if_neg valueType]
    cases t <;> first | rfl | cases isReference

theorem bind_handOver_at (r : Registry) {x : RunM Slot} {t : Ty} (typed : t ≠ .void) {h : Heap}
    (reference : t.isReferenceType = true →
      ∀ s after, x h = (.ok s, after) → ∃ v, s = .ref v) :
    (x >>= fun s => (s.handOver r t).mapError ExecError.toInvokeError) h =
      (x >>= fun s => s.box r t) h := by
  refine Run.bind_congr_at fun s after result => ?_
  rw [s.mapError_handOver r typed fun isReference => reference isReference s after result]

/-- Handing over and boxing the slot of a computation are the same on every store. -/
theorem bind_handOver (r : Registry) {x : RunM Slot} {t : Ty} (typed : t ≠ .void)
    (yields : t.isReferenceType = true → x.Yields fun s => ∃ v, s = .ref v) :
    (x >>= fun s => (s.handOver r t).mapError ExecError.toInvokeError) =
      x >>= fun s => s.box r t := by
  funext h
  exact bind_handOver_at r typed fun isReference => yields isReference h

theorem elementAt_inside {a : Array Value} {n : Int32} {i : Nat} {v : Value}
    (position : n.toInt = i) (there : a[i]? = some v) : elementAt a n = .ok v := by
  have found : (if (i : Int) < 0 then none else a[(i : Int).toNat]?) = some v := by
    rw [if_neg (by omega), Int.toNat_natCast, there]
  simp only [elementAt, position, found]

theorem elementAt_outside {a : Array Value} {n : Int32}
    (outside : n.toInt < 0 ∨ a.size ≤ n.toInt) :
    elementAt a n = .error (.indexOutOfRange n.toInt a.size) := by
  have missing : (if n.toInt < 0 then none else a[n.toInt.toNat]?) = none := by
    by_cases negative : n.toInt < 0
    · exact if_pos negative
    · rw [if_neg negative]
      exact Array.getElem?_eq_none (by omega)
  simp only [elementAt, missing]

theorem elementAt_ofNat {a : Array Value} {i : Nat} (bound : i < a.size) (few : i < 65535) :
    elementAt a (Int32.ofNat i) = .ok a[i] :=
  elementAt_inside (Int32.toInt_ofNat_of_lt (by omega)) (Array.getElem?_eq_getElem bound)

theorem elementAt_of_size_le {a : Array Value} {i : Nat} (behind : a.size ≤ i) (few : i < 65535) :
    elementAt a (Int32.ofNat i) = .error (.indexOutOfRange i a.size) := by
  have position : (Int32.ofNat i).toInt = i := Int32.toInt_ofNat_of_lt (by omega)
  rw [elementAt_outside (by omega), position]

/-- With an argument for each parameter, converting by position is converting pair by pair. -/
theorem convertFrom_eq_mapM (r : Registry) (a : Array Value) {i : Nat} {params : List Param}
    (enough : i + params.length ≤ a.size) (few : i + params.length ≤ 65535)
    (typed : ∀ q ∈ params, q.type ≠ .void) :
    convertFrom r a i params =
      (params.zip (a.toList.drop i)).mapM fun (q, v) => v.unbox r q.type := by
  induction params generalizing i with
  | nil => rfl
  | cons q rest ih =>
    rw [List.length_cons] at enough few
    have bound : i < a.size := by omega
    -- The argument at position `i` is the first of those that are left.
    have head : a.toList.drop i = a[i] :: a.toList.drop (i + 1) :=
      List.drop_eq_getElem_cons bound
    have later := ih (i := i + 1) (by omega) (by omega) fun q mem =>
      typed q (List.mem_cons_of_mem _ mem)
    rw [head, List.zip_cons_cons, List.mapM_cons, convertFrom, elementAt_ofNat bound (by omega),
      later]
    simp only [Run.ofExcept_ok, pure_bind,
      Value.coerce_eq_unbox r a[i] (typed q List.mem_cons_self)]

theorem unboxArguments_of_eq (r : Registry) (member : String) {params : List Param}
    {a : Array Value} (count : a.size = params.length) :
    unboxArguments r member params a =
      ((params.zip a.toList).mapM fun (q, v) => v.unbox r q.type) >>= fun slots =>
        pure slots.toArray := by
  simp [unboxArguments, count]

theorem unboxArguments_of_ne (r : Registry) (member : String) {params : List Param}
    {a : Array Value} (count : a.size ≠ params.length) :
    unboxArguments r member params a =
      throw (.argumentCount member params.length a.size) := by
  simp [unboxArguments, count]

/-- With the right count, both ways of invoking a member convert its arguments alike. -/
theorem unboxArguments_eq_convertFrom (r : Registry) (member : String) {params : List Param}
    {a : Array Value} (count : a.size = params.length) (few : params.length < 65535)
    (typed : ∀ q ∈ params, q.type ≠ .void) :
    unboxArguments r member params a =
      convertFrom r a 0 params >>= fun slots => pure slots.toArray := by
  rw [unboxArguments_of_eq r member count, convertFrom_eq_mapM r a (by omega) (by omega) typed]
  rfl

theorem unboxArguments_reads (r : Registry) (member : String) (params : List Param)
    (a : Array Value) : (unboxArguments r member params a).Reads := by
  by_cases count : a.size = params.length
  · rw [unboxArguments_of_eq r member count]
    refine .bind (.mapM _ fun (q, v) => v.unbox_reads r q.type) fun slots => ?_
    exact .pure slots.toArray
  · rw [unboxArguments_of_ne r member count]
    exact .throw _

end MemberAccess
