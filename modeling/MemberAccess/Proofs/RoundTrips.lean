import MemberAccess.Proofs.EarlyFailures
import MemberAccess.Proofs.Memories
import MemberAccess.Proofs.Nesting
import MemberAccess.Proofs.Operations

/-!
What façades of fields read after writes. A write is seen by the façade of its field and by no other
one; a value type is copied into the field and out of it again, so the boxes on both sides stay
apart from the field.
-/

namespace MemberAccess

open Code Invoker

namespace Field

variable {r : Registry} {f : Field}

/-- What a successful store has done. -/
theorem of_store_eq_ok {v : Value} {s : Slot} {before after : Heap}
    (result : f.store r v s before = (.ok (), after)) :
    f.storage = .static ∧ after = before.setStatic f s ∨
      ∃ index o, f.storage = .slot index ∧ v = .object o ∧
        r.assignable f.declaring o.type = true ∧ index < (before.slots o).length ∧
        after = before.store o index s := by
  unfold store at result
  by_cases fits : s.fits r f.type = true
  · rw [if_pos fits] at result
    cases storage : f.storage with
    | static =>
      rw [storage] at result
      cases result
      exact .inl ⟨rfl, rfl⟩
    | slot index =>
      rw [storage] at result
      obtain ⟨o, middle, received, result⟩ := Run.bind_eq_ok.mp result
      obtain ⟨h, _, got, result⟩ := Run.bind_eq_ok.mp result
      cases got
      rw [Run.ofExcept_apply] at received
      obtain ⟨accepted, rfl⟩ := Prod.mk.inj received
      obtain ⟨same, accepts⟩ := of_receiver_eq_ok accepted
      by_cases bound : index < (before.slots o).length
      · rw [if_pos bound] at result
        cases result
        exact .inr ⟨index, o, rfl, same, accepts, bound, rfl⟩
      · rw [if_neg bound] at result
        cases result
  · rw [if_neg fits] at result
    cases result

/-- What has been stored is what is read. -/
theorem load_of_store_eq_ok {v : Value} {s : Slot} {before after : Heap}
    (result : f.store r v s before = (.ok (), after)) : f.load r v after = (.ok s, after) := by
  rcases of_store_eq_ok result with ⟨storage, rfl⟩ | ⟨index, o, storage, rfl, accepts, bound, rfl⟩
  · rw [load_static storage, Run.modifyGet_apply, Heap.readStatic, Heap.static?_setStatic_self]
  · exact load_of_held storage accepts (Heap.load?_store_self s bound)

/-- A read depends on nothing but its own cell. -/
theorem load_congr {target : Value} {h h' : Heap}
    (static : f.storage = .static → h'.static? f = h.static? f)
    (slot : ∀ index o, f.storage = .slot index → f.receiver r target = .ok o →
      h'.load? o index = h.load? o index) :
    (f.load r target h').1 = (f.load r target h).1 := by
  cases storage : f.storage with
  | static =>
    rw [load_static storage, Run.modifyGet_apply, Run.modifyGet_apply]
    exact congrArg Except.ok (by rw [Heap.fst_readStatic, Heap.fst_readStatic, static storage])
  | slot index =>
    rw [load_slot storage]
    cases accepted : f.receiver r target with
    | error e => rfl
    | ok o =>
      have cell := slot index o storage accepted
      simp only [Run.bind_apply, Run.ofExcept_apply, Run.get_apply, cell]
      cases h.load? o index <;> rfl

/-- A store is seen by a read of the same cell only. -/
theorem load_stores_of_ne {g : Field} {target v : Value} {s : Slot} {h h' : Heap}
    (stores : g.Stores r v s h h') (static : f.storage = .static → f ≠ g)
    (slot : ∀ i j o o', f.storage = .slot i → f.receiver r target = .ok o →
      g.storage = .slot j → g.receiver r v = .ok o' → o'.address = o.address → j ≠ i) :
    (f.load r target h').1 = (f.load r target h).1 := by
  cases stores with
  | nothing => rfl
  | static storage fits =>
    exact load_congr (fun own => Heap.static?_setStatic_of_ne h s (static own)) fun _ _ _ _ => rfl
  | slot j o' storage fits accepted bound =>
    refine load_congr (fun _ => rfl) fun i o own received => ?_
    exact Heap.load?_store_of_ne h s (slot i j o o' own received storage accepted)

theorem pass_of_receiver {target : Value} {o : ObjectRef} (accepted : f.receiver r target = .ok o)
    (policy : Policy) : f.pass r policy target = .ok target := by
  obtain ⟨rfl, accepts⟩ := of_receiver_eq_ok accepted
  unfold pass
  split
  · rfl
  · cases policy with
    | trusted => rfl
    | checked => exact if_pos accepts

theorem conforms_of_load {target : Value} {h h' : Heap} {s : Slot}
    (result : f.load r target h = (.ok s, h')) (fits : s.fits r f.type = true) :
    f.Conforms r target h := by
  unfold Conforms
  cases storage : f.storage with
  | static =>
    intro s' found
    have held := of_load_static storage result
    rw [found, Option.getD_some] at held
    exact held ▸ fits
  | slot index =>
    intro o s' accepted found
    obtain ⟨o', accepted', found'⟩ := of_load_slot storage result
    rw [accepted] at accepted'
    cases accepted'
    rw [found] at found'
    cases found'
    exact fits

theorem pass_of_load {target : Value} {h h' : Heap} {s : Slot}
    (result : f.load r target h = (.ok s, h')) (policy : Policy) :
    f.pass r policy target = .ok target := by
  cases storage : f.storage with
  | static => exact if_pos (isStatic_of_static storage)
  | slot index =>
    obtain ⟨o, accepted, _⟩ := of_load_slot storage result
    exact pass_of_receiver accepted policy

/-- Where a field can be read, what fits it can be stored, also after a read. -/
theorem store_of_load {target : Value} {h h' later : Heap} {s s' : Slot}
    (result : f.load r target h = (.ok s, h')) (kept : h.Keeps r later)
    (fits : s'.fits r f.type = true) :
    ∃ after, f.store r target s' later = (.ok (), after) := by
  cases storage : f.storage with
  | static =>
    rw [store, if_pos fits, storage]
    exact ⟨_, rfl⟩
  | slot index =>
    obtain ⟨o, accepted, found⟩ := of_load_slot storage result
    obtain ⟨rfl, accepts⟩ := of_receiver_eq_ok accepted
    have bound := (List.getElem?_eq_some_iff.mp (kept.load? found)).1
    exact ⟨_, store_of_bound storage accepts fits bound⟩

end Field

/-- A value type has no field of its own type. -/
theorem Registry.Nests.type_ne {r : Registry} (nests : r.Nests) (sound : r.Sound) {t : Ty}
    (finished : r.Finished t) {f : Field} (declared : r.Declares f) {index : Nat}
    (storage : f.storage = .slot index) (accepts : r.assignable f.declaring t = true)
    (struct : f.type.isStruct = true) : f.type ≠ t := by
  rintro rfl
  have mem := List.mem_of_getElem? (sound.type_of_slot finished declared accepts storage)
  exact (nests.nested f.type struct finished).not_mem_layout struct mem

theorem Value.unbox_object (r : Registry) {o : ObjectRef} {id : TypeId}
    (type : o.type = .structType id) (h : Heap) :
    (object o).unbox r (.structType id) h = (.ok (h.copyOut o), h) := congrFun (if_pos type) h

theorem Value.type_of_unbox {r : Registry} {o : ObjectRef} {t : Ty} {s : Slot} {h h' : Heap}
    (struct : t.isStruct = true) (result : (object o).unbox r t h = (.ok s, h')) : o.type = t := by
  cases t with
  | structType id =>
    by_contra other
    simp only [unbox, if_neg other] at result
    cases result
  | _ => cases struct

/-- What a value read from a field of type `t` stands for: the contents of its box for a value type
with fields, else the value itself. -/
def Value.contents (h : Heap) (t : Ty) (v : Value) : Slot :=
  match t, v with
  | .structType _, .object o => h.copyOut o
  | _, v => .ref v

/-- Whether `v` is the value that was given, or, for a value type with fields, a new box of what the
box that was given held then. -/
def Value.Returned (v : Value) (t : Ty) (value : Value) (given before after : Heap) : Prop :=
  if t.isStruct then
    ∃ o, value = .object o ∧ v = .object (before.alloc t (given.slots o)).1 ∧
      after = (before.alloc t (given.slots o)).2
  else v = value ∧ after = before

/-- What is returned stands for the same as what was given. -/
theorem Value.Returned.contents {r : Registry} {v value : Value} {t : Ty}
    {given before after kept : Heap} {s : Slot} (returned : v.Returned t value given before after)
    (unboxed : value.unbox r t given = (.ok s, kept)) :
    v.contents after t = value.contents given t := by
  cases t with
  | structType id =>
    obtain ⟨o, rfl, rfl, rfl⟩ := returned
    have type := type_of_unbox rfl unboxed
    show Heap.copyOut _ _ = given.copyOut o
    rw [Heap.copyOut_alloc_self, Heap.copyOut, type]
  | _ =>
    obtain ⟨rfl, rfl⟩ := returned
    rfl

namespace Slot

/-- What the read of a slot of type `t` stands for. -/
def shown (r : Registry) (s : Slot) (t : Ty) (h : Heap) : Except InvokeError Slot :=
  match (s.handOver r t).mapError ExecError.toInvokeError h with
  | (.ok v, after) => .ok (v.contents after t)
  | (.error e, _) => .error e

/-- The store that a slot is read on does not count. -/
theorem shown_eq (r : Registry) (s : Slot) (t : Ty) (h h' : Heap) :
    s.shown r t h = s.shown r t h' := by
  unfold shown handOver
  by_cases valueType : t.isValueType = true
  · simp only [if_pos valueType, ExecM.mapError_run]
    cases t with
    | primitive p => cases p <;> cases s <;> rfl
    | structType id =>
      cases s with
      | struct u fields =>
        by_cases same : u = .structType id
        · subst same
          simp only [box, if_pos, Run.modifyGet_apply, Value.contents, Heap.copyOut_alloc_self]
        · simp only [box, if_neg same, Run.throw_apply]
      | _ => rfl
    | _ => cases valueType
  · simp only [if_neg valueType]
    cases s with
    | ref v => cases t <;> first | rfl | exact absurd rfl valueType
    | _ => rfl

/-- What was unboxed comes back as it was given. -/
theorem handOver_of_unbox {r : Registry} {value : Value} {t : Ty} {s : Slot} {given kept : Heap}
    (typed : t ≠ .void) (unboxed : value.unbox r t given = (.ok s, kept)) (h : Heap) :
    ∃ v after, (s.handOver r t).mapError ExecError.toInvokeError h = (.ok v, after) ∧
      v.Returned t value given h after := by
  have cast (reference : t.isReferenceType = true)
      (result : (Run.ofExcept ((value.cast r t).map .ref) : RunM Slot) given = (.ok s, kept)) :
      ∃ v after, (s.handOver r t).mapError ExecError.toInvokeError h = (.ok v, after) ∧
        v.Returned t value given h after := by
    cases passed : value.cast r t with
    | error e =>
      rw [passed] at result
      cases result
    | ok w =>
      rw [passed] at result
      cases result
      obtain rfl := Value.eq_of_cast passed
      cases t <;> first | cases reference; done | exact ⟨w, h, rfl, rfl, rfl⟩
  cases t with
  | void => exact absurd rfl typed
  | primitive p =>
    cases p <;> cases value <;> cases unboxed <;> exact ⟨_, h, rfl, rfl, rfl⟩
  | structType id =>
    cases value with
    | object o =>
      have same := Value.type_of_unbox rfl unboxed
      rw [Value.unbox_object r same] at unboxed
      cases unboxed
      refine ⟨.object (h.alloc (.structType id) (given.slots o)).1,
        (h.alloc (.structType id) (given.slots o)).2, ?_, o, rfl, rfl, rfl⟩
      simp only [handOver, Heap.copyOut, same, Ty.isValueType, if_pos, ExecM.mapError_run, box]
      rfl
    | _ => cases unboxed
  | _ => exact cast rfl unboxed

/-- What was handed over unboxes to the slot that it came from. -/
theorem unbox_of_handOver {r : Registry} {s : Slot} {t : Ty} {v : Value} {before after : Heap}
    (typed : t ≠ .void) (fits : s.fits r t = true)
    (result : (s.handOver r t).mapError ExecError.toInvokeError before = (.ok v, after)) :
    v.unbox r t after = (.ok s, after) := by
  have reference (isReference : t.isReferenceType = true) :
      ∃ w, s = .ref w ∧ v = w ∧ before = after ∧ w.cast r t = .ok w := by
    obtain ⟨w, rfl⟩ := Slot.ref_of_fits isReference fits
    have noValueType := Ty.isValueType_of_isReferenceType isReference
    simp only [handOver, noValueType] at result
    cases result
    refine ⟨v, rfl, rfl, rfl, ?_⟩
    rw [Slot.fits, isReference, Bool.true_and] at fits
    unfold Value.cast
    cases v with
    | null => rfl
    | _ => exact if_pos fits
  cases t with
  | void => exact absurd rfl typed
  | primitive p =>
    cases p <;> cases s <;> first | cases fits; done | (cases result; rfl)
  | structType id =>
    cases s with
    | struct u fields =>
      obtain rfl : u = .structType id := by simpa [Slot.fits, Ty.isStruct] using fits
      simp only [handOver, Ty.isValueType, if_pos, ExecM.mapError_run, box, Run.modifyGet_apply]
        at result
      cases result
      rw [Value.unbox_object r rfl, Heap.copyOut_alloc_self]
    | ref w => cases fits
    | _ => cases fits
  | _ =>
    obtain ⟨w, rfl, rfl, rfl, passed⟩ := reference rfl
    simp only [Value.unbox, passed]
    rfl

end Slot

namespace FieldReader

/-- A routine loads its field, whatever the policy, and hands over what it has found. -/
theorem mapError_answer_eq (p : Program) (f : Field) (policy : Policy) (target : Value) :
    (answer p f policy target).mapError ExecError.toInvokeError =
      f.load p.registry target >>= fun s =>
        (s.handOver p.registry f.type).mapError ExecError.toInvokeError := by
  simp only [answer, Run.mapError_bind, ExecM.mapError_run]
  rw [← bind_assoc, f.pass_bind_load]

end FieldReader

namespace FieldWriter

theorem of_answer_eq_ok {p : Program} {f : Field} {policy : Policy} (typed : f.type ≠ .void)
    {target value : Value} {before after : Heap}
    (result : answer p f policy target value before = (.ok (), after)) :
    ∃ s, value.unbox p.registry f.type before = (.ok s, before) ∧
      f.store p.registry target s before = (.ok (), after) := by
  unfold answer at result
  obtain ⟨receiver, first, received, rest⟩ := Run.bind_eq_ok.mp result
  have passed : f.pass p.registry policy target = .ok receiver := congrArg Prod.fst received
  obtain rfl : before = first := congrArg Prod.snd received
  obtain rfl := Field.eq_of_pass passed
  obtain ⟨s, middle, unboxed, stored⟩ := Run.bind_eq_ok.mp rest
  rw [Value.coerce_eq_unbox _ _ typed] at unboxed
  obtain rfl := (value.unbox_reads p.registry f.type).eq_of_ok unboxed
  exact ⟨s, unboxed, stored⟩

theorem answer_eq_ok {p : Program} {f : Field} {policy : Policy} {target value : Value}
    {before after : Heap} {s : Slot}
    (passed : f.pass p.registry policy target = .ok target)
    (unboxed : value.unbox p.registry f.type before = (.ok s, before))
    (stored : f.store p.registry target s before = (.ok (), after)) :
    answer p f policy target value before = (.ok (), after) := by
  rw [answer_of_pass p passed, Field.write, Run.bind_apply, unboxed]
  exact stored

/-- All that a write can do, whether it succeeds or not. -/
theorem answer_stores (p : Program) (f : Field) (policy : Policy) (target value : Value)
    (h : Heap) : ∃ s, f.Stores p.registry target s h (answer p f policy target value h).2 := by
  unfold answer
  cases passed : f.pass p.registry policy target with
  | error e => exact ⟨.null, .nothing⟩
  | ok receiver =>
    obtain rfl := Field.eq_of_pass passed
    rw [Run.ofExcept_ok, pure_bind, Run.bind_apply]
    have kept := value.coerce_reads p.registry f.type h
    cases converted : value.coerce p.registry f.type h with
    | mk outcome middle =>
      rw [converted] at kept
      cases kept
      cases outcome with
      | error e => exact ⟨.null, .nothing⟩
      | ok s => exact ⟨s, f.stores p.registry receiver s _⟩

end FieldWriter

namespace FieldFacade

/-- What a façade reads; for a value type with fields, the contents of the box. -/
def shows (p : Program) (x : FieldFacade) (target : Value) (h : Heap) :
    Except InvokeError Slot :=
  match x.read p target h with
  | (.ok v, after) => .ok (v.contents after x.field.type)
  | (.error e, _) => .error e

section

variable {r : Registry} {f : Field} {policy : Policy} {x : FieldFacade}
  (made : ofField r f policy = .ok x) (p : Program)

include made

theorem field_eq : x.field = f := by
  rw [ofField_eq_ok] at made
  cases made
  rfl

theorem shows_eq (target : Value) (h : Heap) :
    x.shows p target h =
      (f.load p.registry target h).1 >>= fun s => s.shown p.registry f.type {} := by
  rw [shows, read_eq p made, FieldReader.mapError_answer_eq, field_eq made, Run.bind_apply]
  cases f.load p.registry target h with
  | mk outcome middle =>
    cases outcome with
    | error e => rfl
    | ok s => exact s.shown_eq p.registry f.type middle {}

theorem shows_of_load {target : Value} {h h' : Heap} {s : Slot}
    (loaded : f.load p.registry target h = (.ok s, h')) :
    x.shows p target h = s.shown p.registry f.type {} := by
  rw [shows_eq made p, loaded]
  rfl

/-- A write is seen by the façades of its own cell only. -/
theorem shows_write_of_ne {g : Field} {r' : Registry} {policy' : Policy} {y : FieldFacade}
    (made' : ofField r' g policy' = .ok y) {target other : Value}
    (static : f.storage = .static → f ≠ g)
    (slot : ∀ i j o o', f.storage = .slot i → f.receiver p.registry target = .ok o →
      g.storage = .slot j → g.receiver p.registry other = .ok o' →
      o'.address = o.address → j ≠ i) (w : Value) (h : Heap) :
    x.shows p target (y.write p other w h).2 = x.shows p target h := by
  rw [write_eq p made']
  obtain ⟨s, stores⟩ := FieldWriter.answer_stores p g policy' other w h
  rw [shows_eq made p, shows_eq made p, Field.load_stores_of_ne stores static slot]

/-- Writing back what has been read works, and changes nothing that can be seen. -/
theorem write_back (typed : f.type ≠ .void) {target v : Value} {h later : Heap}
    (conforms : f.Conforms p.registry target h) (result : x.read p target h = (.ok v, later)) :
    ∃ final, x.write p target v later = (.ok (), final) ∧
      x.shows p target final = x.shows p target h := by
  have kept : h.Keeps p.registry later := by
    rw [read_eq p made, FieldReader.mapError_answer typed policy conforms] at result
    have keeps := f.read_keeps p.registry target h
    rwa [result] at keeps
  rw [read_eq p made, FieldReader.mapError_answer_eq] at result
  obtain ⟨s, middle, loaded, handedOver⟩ := Run.bind_eq_ok.mp result
  have fits := Field.load_fits typed conforms loaded
  have unboxed := Slot.unbox_of_handOver typed fits handedOver
  obtain ⟨final, stored⟩ := Field.store_of_load loaded kept fits
  refine ⟨final, ?_, ?_⟩
  · rw [write_eq p made]
    exact FieldWriter.answer_eq_ok (Field.pass_of_load loaded policy) unboxed stored
  · rw [shows_of_load made p (Field.load_of_store_eq_ok stored), shows_of_load made p loaded]

end

/-- What holds of the façade `x` of `f` after `value` has been written to `target`, where `v` is
what it reads then. -/
structure RoundTrip (p : Program) (f : Field) (x : FieldFacade) (types : Array Ty)
    (target value v : Value) (before after later : Heap) : Prop where
  returned : v.Returned f.type value before after later
  shown : x.shows p target after = .ok (value.contents before f.type)
  /-- What is done through the box that was given, or through the one that was returned, does not
  reach the field, now or ever. -/
  boxes : f.type.isStruct = true → ∀ b, b = value ∨ b = v →
    ∀ (g : Field) (r : Registry) (policy : Policy) (y : FieldFacade), g.isStatic = false →
      ofField r g policy = .ok y →
        ∀ w h, x.shows p target (y.write p b w h).2 = x.shows p target h
  /-- All other fields, those of the same object and those of other ones, read as before. -/
  others : ∀ (g : Field) (other : Value) (r : Registry) (policy : Policy) (y : FieldFacade),
    p.registry.Declares g → ofField r g policy = .ok y → other.Genuine types →
      g ≠ f ∨ f.isStatic = false ∧ other ≠ target →
        y.shows p other after = y.shows p other before
  back : ∃ final, x.write p target v later = (.ok (), final) ∧
    x.shows p target final = x.shows p target after

section

variable {p : Program} (reached : Registry.Reaches {} p.registry) {f : Field}
  (declared : p.registry.Declares f) {types : Array Ty} {target : Value}
  (genuine : target.Genuine types)
  (settled : f.isStatic = false → ∀ o, target = .object o → p.registry.Finished o.type)

include reached declared genuine settled

/-- A write is seen through no other field and on no other object. -/
theorem shows_write_of_other {r r' : Registry} {g : Field} {policy policy' : Policy}
    {x y : FieldFacade} (made : ofField r f policy = .ok x) (made' : ofField r' g policy' = .ok y)
    (declared' : p.registry.Declares g) {other : Value} (genuine' : other.Genuine types)
    (ne : g ≠ f ∨ f.isStatic = false ∧ other ≠ target) (value : Value) (h : Heap) :
    y.shows p other (x.write p target value h).2 = y.shows p other h := by
  refine shows_write_of_ne made' p made ?_ ?_ value h
  · rintro static rfl
    rcases ne with ne | ⟨isInstance, _⟩
    · exact ne rfl
    · rw [Field.isStatic_of_static static] at isInstance
      cases isInstance
  · rintro i j o o' storage accepted storage' accepted' address rfl
    obtain ⟨rfl, accepts⟩ := Field.of_receiver_eq_ok accepted
    obtain ⟨rfl, accepts'⟩ := Field.of_receiver_eq_ok accepted'
    -- References to one address are to what was made there, so they are the same.
    have type : o'.type = o.type := by
      have known : types[o'.address]? = some o'.type := genuine
      rw [address] at known
      exact Option.some.inj (known.symm.trans genuine')
    obtain rfl : o' = o := by
      cases o
      cases o'
      cases type
      cases address
      rfl
    have sound := Registry.sound_of_reaches reached
    have finished := settled (Field.isStatic_of_slot storage') o' rfl
    have same : g = f := sound.eq_of_visible finished
      (sound.visible_of_assignable finished declared' accepts)
      (sound.visible_of_assignable finished declared accepts')
      (Field.slotIndex?_eq_some.mpr storage) (Field.slotIndex?_eq_some.mpr storage')
    rcases ne with ne | ⟨_, ne⟩
    · exact ne same
    · exact ne rfl

/-- Neither the box that is stored nor the one that is read is the object that has the field. -/
theorem address_ne_of_box {value v : Value} {s : Slot} {before after later : Heap}
    (genuine' : value.Genuine types) (struct : f.type.isStruct = true)
    (unboxed : value.unbox p.registry f.type before = (.ok s, before))
    (stored : f.store p.registry target s before = (.ok (), after))
    (returned : v.Returned f.type value before after later) {b : Value}
    (box : b = value ∨ b = v) {o o' : ObjectRef} {index : Nat} (storage : f.storage = .slot index)
    (accepted : f.receiver p.registry target = .ok o) (same : b = .object o') :
    o'.address ≠ o.address := by
  obtain ⟨rfl, accepts⟩ := Field.of_receiver_eq_ok accepted
  rw [Value.Returned, if_pos struct] at returned
  obtain ⟨given, rfl, rfl, _⟩ := returned
  rcases box with rfl | rfl
  -- The box that was given is of the type of the field, and the object is not.
  · cases same
    have type := Value.type_of_unbox struct unboxed
    have finished := settled (Field.isStatic_of_slot storage) o rfl
    have apart := (Registry.nests_of_reaches reached).type_ne (Registry.sound_of_reaches reached)
      finished declared storage accepts struct
    intro address
    have known : types[o'.address]? = some o'.type := genuine'
    rw [address] at known
    exact apart (type.symm.trans (Option.some.inj (known.symm.trans genuine)))
  -- The box that was returned is new.
  · cases same
    rcases Field.of_store_eq_ok stored with ⟨static, _⟩ | ⟨i, u, _, held, _, bound, rfl⟩
    · rw [storage] at static
      cases static
    · cases held
      have size : (before.store o i s).objects.size = before.objects.size := by
        simp [Heap.store]
      have below := Heap.address_lt_size bound
      rw [← size] at below
      exact below.ne'

end

/-- A value that can be written to a field is what is read from it then, and a value type with
fields comes back in a new box. No other field of any object reads differently, static ones
included, the field is out of reach of the boxes on both sides, and writing back what has been read
changes nothing. It is enough that the type of the object is finished by now. -/
theorem round_trip {p : Program} (reached : Registry.Reaches {} p.registry) {f : Field}
    (declared : p.registry.Declares f) (typed : f.type ≠ .void) {r : Registry} {policy : Policy}
    {x : FieldFacade} (made : ofField r f policy = .ok x) {target : Value}
    (settled : f.isStatic = false → ∀ o, target = .object o → p.registry.Finished o.type)
    {m : Memory} (genuine : target.Genuine m.types) {value : Value}
    (genuine' : value.Genuine m.types) {after : Heap}
    (written : x.write p target value m.heap = (.ok (), after)) :
    ∃ v later, x.read p target after = (.ok v, later) ∧
      RoundTrip p f x m.types target value v m.heap after later := by
  have answered := written
  rw [write_eq p made] at answered
  obtain ⟨s, unboxed, stored⟩ := FieldWriter.of_answer_eq_ok typed answered
  have loaded := Field.load_of_store_eq_ok stored
  obtain ⟨v, later, handedOver, returned⟩ := Slot.handOver_of_unbox typed unboxed after
  have read : x.read p target after = (.ok v, later) := by
    rw [read_eq p made, FieldReader.mapError_answer_eq, Run.bind_apply, loaded]
    exact handedOver
  refine ⟨v, later, read, returned, ?_, ?_, ?_, ?_⟩
  · rw [shows, read, field_eq made]
    exact congrArg Except.ok (returned.contents unboxed)
  · intro struct b box g r' policy' y isInstance made' w h
    refine shows_write_of_ne made p made' ?_ ?_ w h
    · rintro static rfl
      rw [Field.isStatic_of_static static] at isInstance
      cases isInstance
    · intro i j o o' storage accepted _ accepted' address
      obtain ⟨same, _⟩ := Field.of_receiver_eq_ok accepted'
      exact absurd address (address_ne_of_box reached declared genuine settled genuine' struct
        unboxed stored returned box storage accepted same)
  · intro g other r' policy' y declared' made' genuine'' ne
    have apart := shows_write_of_other reached declared genuine settled made made' declared'
      genuine'' ne value m.heap
    rwa [written] at apart
  · have conforms := Field.conforms_of_load loaded (Value.unbox_fits unboxed)
    exact write_back made p typed conforms read

end FieldFacade

namespace Drawing

def program : Program := ⟨registry, Shape.program.bodies⟩

/-- A square, whose corner is where corners are by default, and a point in a box. -/
def memory : Memory where
  heap := { objects := #[[.null, .struct point [.int32 0]], [.int32 5]] }
  types := #[square, point]

/-- The square has got the point as its corner. -/
def moved : Heap := { objects := #[[.null, .struct point [.int32 5]], [.int32 5]] }

end Drawing

namespace FieldFacade

/-- The corner comes back in a box of its own, behind the one that it came from. -/
theorem round_trip_corner :
    Registry.Reaches {} Drawing.program.registry ∧
      Drawing.program.registry.Declares Drawing.corner ∧
      Drawing.program.registry.Finished Drawing.square ∧ Drawing.corner.type ≠ .void ∧
      (Value.object ⟨Drawing.square, 0⟩).Genuine Drawing.memory.types ∧
      (Value.object ⟨Drawing.point, 1⟩).Genuine Drawing.memory.types ∧
      ∃ x, ofField Drawing.registry Drawing.corner .checked = .ok x ∧
        x.write Drawing.program (.object ⟨Drawing.square, 0⟩) (.object ⟨Drawing.point, 1⟩)
          Drawing.memory.heap = (.ok (), Drawing.moved) ∧
        ∃ v later, x.read Drawing.program (.object ⟨Drawing.square, 0⟩) Drawing.moved =
            (.ok v, later) ∧
          v = .object ⟨Drawing.point, 2⟩ ∧
          RoundTrip Drawing.program Drawing.corner x Drawing.memory.types
            (.object ⟨Drawing.square, 0⟩) (.object ⟨Drawing.point, 1⟩) v Drawing.memory.heap
            Drawing.moved later := by
  have reached : Registry.Reaches {} Drawing.program.registry :=
    Registry.reaches_of_replay Drawing.replay_edits
  have declared : Drawing.program.registry.Declares Drawing.corner :=
    ⟨_, rfl, List.mem_cons_self⟩
  have finished : Drawing.program.registry.Finished Drawing.square := Drawing.finished_square
  have typed : Drawing.corner.type ≠ .void := by decide
  have made := ofField_eq_ok Drawing.registry Drawing.corner .checked
  have genuine : (Value.object ⟨Drawing.square, 0⟩).Genuine Drawing.memory.types := rfl
  have genuine' : (Value.object ⟨Drawing.point, 1⟩).Genuine Drawing.memory.types := rfl
  refine ⟨reached, declared, finished, typed, genuine, genuine', _, made, ?_⟩
  have written := congrFun (write_eq Drawing.program made (.object ⟨Drawing.square, 0⟩)
    (.object ⟨Drawing.point, 1⟩)) Drawing.memory.heap
  refine ⟨written.trans rfl, ?_⟩
  obtain ⟨v, later, read, trip⟩ := round_trip reached declared typed made
    (fun _ o same => by cases same; exact finished) genuine genuine' (written.trans rfl)
  refine ⟨v, later, read, ?_, trip⟩
  obtain ⟨o, same, returned, _⟩ := trip.returned
  exact returned

end FieldFacade

end MemberAccess
