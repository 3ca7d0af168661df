import MemberAccess.Defining
import MemberAccess.Facade
import MemberAccess.Proofs.Boxing

/-!
Façades of fields against access by descriptor. Reads agree under both receiver policies. Writes
agree unless receiver and value are both wrong: then a façade names the receiver, whose check comes
first, and access by descriptor the value.
-/

namespace MemberAccess

open Code Invoker

/-- A cast gives the value itself or names the two types. -/
theorem Value.cast_eq_ok_or_error (r : Registry) (v : Value) (t : Ty) :
    v.cast r t = .ok v ∨ v.cast r t = .error (.invalidCast (r.name t) (v.typeName r)) := by
  unfold Value.cast Value.typeName
  cases v with
  | null => exact .inl rfl
  | _ =>
    simp only [Value.runtimeType?]
    split
    · exact .inl rfl
    · exact .inr rfl

theorem Value.runtimeType_of_cast {r : Registry} {v w : Value} {t : Ty}
    (accepted : v.cast r t = .ok w) : w.runtimeType?.all (r.assignable t ·) = true := by
  unfold Value.cast at accepted
  cases runtime : v.runtimeType? with
  | none =>
    rw [runtime] at accepted
    cases accepted
    rfl
  | some s =>
    rw [runtime] at accepted
    by_cases assignable : r.assignable t s = true
    · simp only [if_pos assignable] at accepted
      cases accepted
      rw [runtime]
      exact assignable
    · simp only [if_neg assignable] at accepted
      cases accepted

/-- What unboxing gives may be stored where the type is expected. -/
theorem Value.unbox_fits {r : Registry} {v : Value} {t : Ty} {s : Slot} {before after : Heap}
    (result : v.unbox r t before = (.ok s, after)) : s.fits r t = true := by
  have castFits (reference : t.isReferenceType = true)
      (result : (Run.ofExcept ((v.cast r t).map .ref) : RunM Slot) before = (.ok s, after)) :
      s.fits r t = true := by
    cases cast : v.cast r t with
    | error e =>
      rw [cast] at result
      cases result
    | ok w =>
      rw [cast] at result
      cases result
      rw [Slot.fits, reference, Bool.true_and]
      exact Value.runtimeType_of_cast cast
  cases t with
  | void => cases result
  | primitive p => cases p <;> cases v <;> cases result <;> rfl
  | structType id =>
    cases v with
    | object o =>
      by_cases same : o.type = .structType id
      · simp only [Value.unbox, if_pos same] at result
        cases result
        simp [Heap.copyOut, Slot.fits, Ty.isStruct, same]
      · simp only [Value.unbox, if_neg same] at result
        cases result
    | _ => cases result
  | _ => exact castFits rfl result

theorem Registry.initial_of_isValueType (r : Registry) {t : Ty}
    (noValueType : t.isValueType = false) : r.initial t = .null := by
  unfold Registry.initial
  cases r.types.size <;> cases t <;> first | rfl | cases noValueType

/-- A default fits where it is the default, `Void` apart. -/
theorem Registry.initial_fits (r : Registry) {t : Ty} (typed : t ≠ .void) :
    (r.initial t).fits r t = true := by
  unfold initial
  cases t with
  | void => exact absurd rfl typed
  | primitive p => cases r.types.size <;> cases p <;> rfl
  | structType id => cases r.types.size <;> simp [initialWithin, Slot.fits, Ty.isStruct]
  | _ => cases r.types.size <;> rfl

/-- A conforming slot of a reference type holds a reference. -/
theorem Slot.ref_of_fits {r : Registry} {s : Slot} {t : Ty} (reference : t.isReferenceType = true)
    (fits : s.fits r t = true) : ∃ v, s = .ref v := by
  cases s with
  | ref v => exact ⟨v, rfl⟩
  | _ => cases t <;> simp_all [Slot.fits, Ty.isReferenceType, Ty.isStruct]

namespace Field

variable {r : Registry} {f : Field}

/-- The receiver of a field is rejected for the reason for which its cast is. -/
theorem receiver_of_cast_error {v : Value} {e : InvokeError}
    (rejected : v.cast r f.declaring = .error e) : f.receiver r v = .error e := by
  cases v with
  | null => cases rejected
  | object o =>
    unfold Value.cast at rejected
    by_cases assignable : r.assignable f.declaring o.type = true
    · simp only [Value.runtimeType?, if_pos assignable] at rejected
      cases rejected
    · simp only [Value.runtimeType?, if_neg assignable] at rejected
      cases rejected
      exact if_neg assignable
  | _ =>
    rcases Value.cast_eq_ok_or_error r _ f.declaring with accepted | named
    · rw [accepted] at rejected
      cases rejected
    · rw [named] at rejected
      cases rejected
      rfl

theorem pass_checked (r : Registry) (isInstance : f.isStatic = false) (target : Value) :
    f.pass r .checked target = target.cast r f.declaring :=
  if_neg (Bool.eq_false_iff.mp isInstance)

/-- Whatever the policy, a load on the receiver that it passes is a load on the receiver given. -/
theorem pass_bind_load (r : Registry) (f : Field) (policy : Policy) (target : Value) :
    Run.ofExcept (f.pass r policy target) >>= f.load r = f.load r target := by
  unfold pass
  by_cases static : f.isStatic = true
  · rw [if_pos static]
    rfl
  · rw [if_neg static]
    cases policy with
    | trusted => rfl
    | checked =>
      rcases Value.cast_eq_ok_or_error r target f.declaring with accepted | rejected
      · rw [Policy.pass, accepted]
        rfl
      · have refused := receiver_of_cast_error rejected
        rw [Policy.pass, rejected]
        cases storage : f.storage with
        | static => exact absurd (isStatic_of_static storage) static
        | slot index =>
          simp only [load, storage, refused]
          rfl

/-- Whether what a read finds conforms to the type of the field: the cell of a static field, or the
slot of a receiver that the field accepts, as far as there is one. -/
def Conforms (r : Registry) (f : Field) (target : Value) (h : Heap) : Prop :=
  match f.storage with
  | .static => ∀ s, h.static? f = some s → s.fits r f.type = true
  | .slot index =>
    ∀ o s, f.receiver r target = .ok o → h.load? o index = some s → s.fits r f.type = true

theorem load_keeps (r : Registry) (f : Field) (target : Value) :
    (f.load r target).Respects (Heap.Keeps r) := by
  unfold load
  cases f.storage with
  | static => exact fun h => .readStatic r h f
  | slot index =>
    refine .bind (Heap.Keeps.trans r) (Run.Reads.respects (.refl r) (.ofExcept _)) fun o => ?_
    refine .bind (Heap.Keeps.trans r) (Run.Reads.respects (.refl r) .get) fun h => ?_
    split
    · exact Run.Reads.respects (.refl r) (.pure _)
    · exact Run.Reads.respects (.refl r) (.throw _)

theorem read_keeps (r : Registry) (f : Field) (target : Value) :
    (f.read r target).Respects (Heap.Keeps r) :=
  .bind (Heap.Keeps.trans r) (load_keeps r f target) fun s => s.box_keeps r f.type

theorem load_static (storage : f.storage = .static) (target : Value) :
    f.load r target = modifyGet (·.readStatic r f) := by
  cases f
  cases storage
  rfl

theorem load_slot {index : Nat} (storage : f.storage = .slot index) (target : Value) :
    f.load r target = (do
      let o ← Run.ofExcept (f.receiver r target)
      match (← get).load? o index with
      | some s => pure s
      | none => throw (f.slotMissing r index)) := by
  cases f
  cases storage
  rfl

/-- A static field that has not been accessed yet reads as the default of its type. -/
theorem of_load_static {target : Value} {before after : Heap} {s : Slot}
    (storage : f.storage = .static) (result : f.load r target before = (.ok s, after)) :
    s = (before.static? f).getD (r.initial f.type) := by
  rw [load_static storage] at result
  rw [← Heap.fst_readStatic]
  exact (Except.ok.inj (congrArg Prod.fst result)).symm

theorem of_load_slot {index : Nat} {target : Value} {before after : Heap} {s : Slot}
    (storage : f.storage = .slot index) (result : f.load r target before = (.ok s, after)) :
    ∃ o, f.receiver r target = .ok o ∧ before.load? o index = some s := by
  rw [load_slot storage] at result
  obtain ⟨o, _, received, result⟩ := Run.bind_eq_ok.mp result
  obtain ⟨h, _, got, result⟩ := Run.bind_eq_ok.mp result
  have same : before = h :=
    (congrArg Prod.snd received).trans (Except.ok.inj (congrArg Prod.fst got))
  subst same
  refine ⟨o, congrArg Prod.fst received, ?_⟩
  cases found : before.load? o index with
  | none =>
    rw [found] at result
    cases result
  | some s' =>
    rw [found] at result
    cases result
    rfl

theorem receiver_eq_ok {o : ObjectRef} (accepts : r.assignable f.declaring o.type = true) :
    f.receiver r (.object o) = .ok o := if_pos accepts

theorem load_of_held {index : Nat} {o : ObjectRef} {h : Heap} {s : Slot}
    (storage : f.storage = .slot index) (accepts : r.assignable f.declaring o.type = true)
    (held : h.load? o index = some s) : f.load r (.object o) h = (.ok s, h) := by
  rw [load_slot storage, receiver_eq_ok accepts]
  simp only [Run.bind_apply, Run.ofExcept_apply, Run.get_apply, held]
  rfl

theorem load_fits (typed : f.type ≠ .void) {target : Value} {before after : Heap} {s : Slot}
    (conforms : f.Conforms r target before)
    (result : f.load r target before = (.ok s, after)) : s.fits r f.type = true := by
  unfold Conforms at conforms
  cases storage : f.storage with
  | static =>
    rw [storage] at conforms
    rw [of_load_static storage result]
    cases found : before.static? f with
    | none => exact r.initial_fits typed
    | some s => exact conforms s found
  | slot index =>
    rw [storage] at conforms
    obtain ⟨o, accepted, found⟩ := of_load_slot storage result
    exact conforms o s accepted found

end Field

namespace FieldReader

/-- On a store that conforms, a routine of any policy reads as access by descriptor does. -/
theorem mapError_answer {p : Program} {f : Field} (typed : f.type ≠ .void) (policy : Policy)
    {target : Value} {before : Heap} (conforms : f.Conforms p.registry target before) :
    (answer p f policy target).mapError ExecError.toInvokeError before =
      f.read p.registry target before := by
  have loaded := f.pass_bind_load p.registry policy target
  unfold answer Field.read
  rw [← loaded]
  simp only [Run.mapError_bind, ExecM.mapError_run, bind_assoc]
  rw [← bind_assoc, ← bind_assoc, loaded]
  exact bind_handOver_at p.registry typed fun reference s after result =>
    Slot.ref_of_fits reference (Field.load_fits typed conforms result)

end FieldReader

namespace Field

variable {r : Registry} {f : Field}

theorem store_of_not_fits (v : Value) {s : Slot} (misfit : ¬ s.fits r f.type = true) :
    f.store r v s = throw (.invalidCast (r.name f.type) (s.kindText r)) := if_neg misfit

theorem store_of_bound {index : Nat} {o : ObjectRef} {h : Heap} {s : Slot}
    (storage : f.storage = .slot index) (accepts : r.assignable f.declaring o.type = true)
    (fits : s.fits r f.type = true) (bound : index < (h.slots o).length) :
    f.store r (.object o) s h = (.ok (), h.store o index s) := by
  rw [store, if_pos fits, storage, receiver_eq_ok accepts]
  simp only [Run.bind_apply, Run.ofExcept_apply, Run.get_apply, if_pos bound]
  rfl

theorem store_of_receiver_error {v : Value} {s : Slot} {e : InvokeError}
    (fits : s.fits r f.type = true) (isInstance : f.isStatic = false)
    (rejected : f.receiver r v = .error e) : f.store r v s = throw e := by
  obtain ⟨index, storage⟩ := exists_slot isInstance
  simp only [store, fits, storage, rejected]
  rfl

/-- Casting and unboxing differ on `Void` only, and there a store fails alike after both. -/
theorem coerce_bind_store (r : Registry) (f : Field) (target value : Value) :
    value.coerce r f.type >>= f.store r target = value.unbox r f.type >>= f.store r target := by
  by_cases typed : f.type = .void
  -- A cast to `Void` lets some values pass, but nothing fits a field of that type.
  · have misfit (v : Value) : ¬ (Slot.ref v).fits r f.type = true := by
      rw [typed]
      exact Bool.false_ne_true
    have unboxed : value.unbox r f.type =
        throw (.invalidCast (r.name f.type) (value.typeName r)) := by
      rw [typed]
      rfl
    have coerced : value.coerce r f.type = .ofExcept ((value.cast r f.type).map .ref) := by
      rw [typed]
      rfl
    rw [unboxed, coerced, Run.throw_bind]
    rcases value.cast_eq_ok_or_error r f.type with accepted | rejected
    · rw [accepted]
      exact store_of_not_fits target (misfit value)
    · rw [rejected]
      rfl
  · rw [Value.coerce_eq_unbox r value typed]

/-- Whether receiver and value of a write are both rejected, for different reasons. -/
structure Contested (r : Registry) (f : Field) (target value : Value) (h : Heap)
    (receiverError valueError : InvokeError) : Prop where
  isInstance : f.isStatic = false
  receiver : target.cast r f.declaring = .error receiverError
  value : (value.unbox r f.type h).1 = .error valueError
  ne : receiverError ≠ valueError

theorem write_of_unbox_error {target value : Value} {h : Heap} {e : InvokeError}
    (rejected : (value.unbox r f.type h).1 = .error e) :
    f.write r target value h = (.error e, h) := by
  have kept := value.unbox_reads r f.type h
  have result : value.unbox r f.type h = (.error e, h) := Prod.ext rejected kept
  rw [write, Run.bind_apply, result]

theorem write_of_cast_error {target value : Value} {h : Heap} {e : InvokeError} {s : Slot}
    (isInstance : f.isStatic = false) (rejected : target.cast r f.declaring = .error e)
    (unboxed : (value.unbox r f.type h).1 = .ok s) :
    f.write r target value h = (.error e, h) := by
  have kept := value.unbox_reads r f.type h
  have result : value.unbox r f.type h = (.ok s, h) := Prod.ext unboxed kept
  have refused := store_of_receiver_error (Value.unbox_fits result) isInstance
    (receiver_of_cast_error rejected)
  rw [write, Run.bind_apply, result]
  exact congrFun refused h

end Field

namespace FieldWriter

variable (p : Program) {f : Field}

theorem answer_of_pass {policy : Policy} {target : Value}
    (passed : f.pass p.registry policy target = .ok target) (value : Value) :
    answer p f policy target value = f.write p.registry target value := by
  rw [answer, passed, Run.ofExcept_ok, pure_bind]
  exact f.coerce_bind_store p.registry target value

theorem answer_of_pass_error {policy : Policy} {target : Value} {e : InvokeError}
    (refused : f.pass p.registry policy target = .error e) (value : Value) :
    answer p f policy target value = throw e := by
  rw [answer, refused, Run.ofExcept_error, Run.throw_bind]

/-- A checked write that is not contested is what access by descriptor does. -/
theorem answer_of_not_contested {target value : Value} {h : Heap}
    (agreed : ¬ ∃ e e', f.Contested p.registry target value h e e') :
    answer p f .checked target value h = f.write p.registry target value h := by
  by_cases static : f.isStatic = true
  · rw [answer_of_pass p (if_pos static)]
  · have isInstance : f.isStatic = false := Bool.eq_false_iff.mpr static
    have passed := f.pass_checked p.registry isInstance target
    rcases target.cast_eq_ok_or_error p.registry f.declaring with accepted | rejected
    · rw [answer_of_pass p (passed.trans accepted)]
    · rw [answer_of_pass_error p (passed.trans rejected), Run.throw_apply]
      -- Both ways fail; what the value does decides whether for the same reason.
      cases unboxed : (value.unbox p.registry f.type h).1 with
      | ok s => rw [f.write_of_cast_error isInstance rejected unboxed]
      | error e =>
        rw [f.write_of_unbox_error unboxed]
        by_cases same : InvokeError.invalidCast (p.registry.name f.declaring)
            (target.typeName p.registry) = e
        · rw [same]
        · exact absurd ⟨_, _, isInstance, rejected, unboxed, same⟩ agreed

end FieldWriter

/-! A shape has its origin, a point, in its only slot. -/

namespace Shape

def origin : Field := ⟨.classType 0, 0, "Origin", .structType 1, true, false, .slot 0⟩

def program : Program where
  registry :=
    { types := #[⟨"Shape", [.object], .finished
          (Draft.members { fields := [origin], layout := [.structType 1] })⟩,
        ⟨"Point", [], .finished (Draft.members { layout := [.int32, .int32] })⟩] }
  bodies :=
    { method := fun _ _ => pure .null
      constructor := fun _ _ => pure () }

end Shape

namespace FieldFacade

theorem ofField_eq_ok (r : Registry) (f : Field) (policy : Policy) :
    ofField r f policy =
      .ok ⟨⟨f, ⟨FieldReader.body r f policy, 1, FieldReader.check_body r f policy⟩⟩,
        ⟨f, ⟨FieldWriter.body r f policy, 2, FieldWriter.check_body r f policy⟩⟩⟩ := by
  rw [ofField, FieldReader.compile_eq_ok, FieldWriter.compile_eq_ok]
  rfl

theorem read_eq (p : Program) {x : FieldFacade} {r : Registry} {f : Field} {policy : Policy}
    (made : ofField r f policy = .ok x) (target : Value) :
    x.read p target = (FieldReader.answer p f policy target).mapError ExecError.toInvokeError := by
  rw [ofField_eq_ok] at made
  cases made
  exact FieldReader.get_eq_answer p f policy rfl target

theorem write_eq (p : Program) {x : FieldFacade} {r : Registry} {f : Field} {policy : Policy}
    (made : ofField r f policy = .ok x) (target value : Value) :
    x.write p target value = FieldWriter.answer p f policy target value := by
  rw [ofField_eq_ok] at made
  cases made
  exact FieldWriter.set_eq_answer p f policy rfl target value

/-- Under both policies a façade reads as access by descriptor does, from every store in which the
field holds what its type promises; nothing that was there changes, and a struct comes in a new
box. -/
theorem read_eq_field_read (r : Registry) {f : Field} (typed : f.type ≠ .void) (policy : Policy) :
    ∃ x, ofField r f policy = .ok x ∧
      ∀ (p : Program) target before, f.Conforms p.registry target before →
        x.read p target before = f.read p.registry target before ∧
        before.Keeps p.registry (x.read p target before).2 ∧
        (f.type.isStruct = true →
          ∀ v after, x.read p target before = (.ok v, after) →
            ∃ middle, v.NewBox f.type middle after) := by
  have made := ofField_eq_ok r f policy
  refine ⟨_, made, fun p target before conforms => ?_⟩
  rw [read_eq p made target, FieldReader.mapError_answer typed policy conforms]
  refine ⟨rfl, f.read_keeps p.registry target before, fun struct v after result => ?_⟩
  obtain ⟨s, middle, _, boxed⟩ := Run.bind_eq_ok.mp result
  exact ⟨middle, Slot.box_newBox struct boxed⟩

/-- The point comes out of the shape in a box behind it. -/
theorem read_shape_origin :
    Shape.origin.type ≠ .void ∧
      Shape.origin.Conforms Shape.program.registry (.object ⟨.classType 0, 0⟩)
        { objects := #[[.struct (.structType 1) [.int32 3, .int32 4]]] } ∧
      Shape.origin.type.isStruct = true ∧
      ∃ x, ofField {} Shape.origin .trusted = .ok x ∧
        x.read Shape.program (.object ⟨.classType 0, 0⟩)
            { objects := #[[.struct (.structType 1) [.int32 3, .int32 4]]] } =
          (.ok (.object ⟨.structType 1, 1⟩),
            { objects := #[[.struct (.structType 1) [.int32 3, .int32 4]],
                [.int32 3, .int32 4]] }) ∧
        ∃ middle, (Value.object ⟨.structType 1, 1⟩).NewBox (.structType 1) middle
          { objects := #[[.struct (.structType 1) [.int32 3, .int32 4]],
              [.int32 3, .int32 4]] } := by
  have typed : Shape.origin.type ≠ .void := by decide
  have conforms : Shape.origin.Conforms Shape.program.registry (.object ⟨.classType 0, 0⟩)
      { objects := #[[.struct (.structType 1) [.int32 3, .int32 4]]] } := by
    intro o s received found
    cases received
    cases found
    rfl
  have struct : Shape.origin.type.isStruct = true := rfl
  obtain ⟨x, made, agrees⟩ := read_eq_field_read {} typed .trusted
  obtain ⟨same, _, boxed⟩ := agrees Shape.program _ _ conforms
  have result : x.read Shape.program (.object ⟨.classType 0, 0⟩)
      { objects := #[[.struct (.structType 1) [.int32 3, .int32 4]]] } =
      (.ok (.object ⟨.structType 1, 1⟩),
        { objects := #[[.struct (.structType 1) [.int32 3, .int32 4]], [.int32 3, .int32 4]] }) :=
    same.trans rfl
  exact ⟨typed, conforms, struct, x, made, result, boxed struct _ _ result⟩

/-- A façade writes as access by descriptor does, with the same failures, exactly as long as
receiver and value are not both rejected for different reasons. If they are, the façade reports the
receiver and access by descriptor the value, and neither changes the store. -/
theorem write_eq_iff_not_contested (r : Registry) (f : Field) :
    ∃ x, ofField r f = .ok x ∧
      ∀ (p : Program) target value before,
        (x.write p target value before = f.write p.registry target value before ↔
          ¬ ∃ e e', f.Contested p.registry target value before e e') ∧
        ∀ e e', f.Contested p.registry target value before e e' →
          x.write p target value before = (.error e, before) ∧
          f.write p.registry target value before = (.error e', before) := by
  have made := ofField_eq_ok r f .checked
  refine ⟨_, made, fun p target value before => ?_⟩
  rw [write_eq p made target value]
  have apart (e e') (contested : f.Contested p.registry target value before e e') :
      FieldWriter.answer p f .checked target value before = (.error e, before) ∧
        f.write p.registry target value before = (.error e', before) := by
    have refused := (f.pass_checked p.registry contested.isInstance target).trans contested.receiver
    rw [FieldWriter.answer_of_pass_error p refused]
    exact ⟨rfl, f.write_of_unbox_error contested.value⟩
  refine ⟨⟨?_, FieldWriter.answer_of_not_contested p⟩, apart⟩
  rintro same ⟨e, e', contested⟩
  obtain ⟨receiverFirst, valueFirst⟩ := apart e e' contested
  rw [receiverFirst, valueFirst] at same
  exact contested.ne (Except.error.inj (congrArg Prod.fst same))

/-- Storing one text into the origin of another: one way misses the shape, the other the point. -/
theorem write_text_to_text_contested :
    ∃ x, ofField Shape.program.registry Shape.origin = .ok x ∧
      x.write Shape.program (.string "shape") (.string "point") {} =
        (.error (.invalidCast "Shape" "String"), {}) ∧
      Shape.origin.write Shape.program.registry (.string "shape") (.string "point") {} =
        (.error (.invalidCast "Point" "String"), {}) ∧
      x.write Shape.program (.string "shape") (.string "point") {} ≠
        Shape.origin.write Shape.program.registry (.string "shape") (.string "point") {} := by
  have made := ofField_eq_ok Shape.program.registry Shape.origin .checked
  have byFacade : FieldWriter.answer Shape.program Shape.origin .checked (.string "shape")
      (.string "point") {} = (.error (.invalidCast "Shape" "String"), {}) := rfl
  have byDescriptor : Shape.origin.write Shape.program.registry (.string "shape")
      (.string "point") {} = (.error (.invalidCast "Point" "String"), {}) := rfl
  refine ⟨_, made, ?_⟩
  rw [write_eq Shape.program made, byFacade, byDescriptor]
  refine ⟨rfl, rfl, fun same => ?_⟩
  have errors := Except.error.inj (congrArg Prod.fst same)
  exact absurd errors (by decide)

end FieldFacade

end MemberAccess
