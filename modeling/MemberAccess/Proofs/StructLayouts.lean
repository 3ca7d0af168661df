import MemberAccess.Proofs.HeapTyping
import MemberAccess.Proofs.Nesting

/-!
Values of value types in fields, while types are still being defined. A location is filled with the
default of its type once: the slots of an instance when it is made, the cell of a static field when
it is first read. A value type that is finished by then has all of its slots in the location, at
every depth; one that is finished later has none of them there, so nothing can be read out of it.
-/

namespace MemberAccess

/-- Whether every value type in a slot, at any depth, is finished and has as many fields as its
layout wants. -/
inductive Slot.Complete (r : Registry) : Slot → Prop
  | bool (b : Bool) : Complete r (.bool b)
  | int32 (n : Int32) : Complete r (.int32 n)
  | int64 (n : Int64) : Complete r (.int64 n)
  | float64 (x : Float) : Complete r (.float64 x)
  | char (c : Char) : Complete r (.char c)
  | ref (v : Value) : Complete r (.ref v)
  | struct {t : Ty} {fields : List Slot} (finished : r.Finished t)
      (length : fields.length = (r.layout t).length)
      (each : ∀ s ∈ fields, Slot.Complete r s) : Complete r (.struct t fields)

namespace Slot.Complete

variable {r : Registry} {s : Slot}

theorem grows {r' : Registry} (complete : s.Complete r) (grows : r.Grows r') :
    s.Complete r' := by
  induction complete with
  | struct finished length each ih =>
    refine .struct (grows.finished finished) ?_ ih
    rw [grows.layout finished.2]
    exact length
  | bool b => exact .bool b
  | int32 n => exact .int32 n
  | int64 n => exact .int64 n
  | float64 x => exact .float64 x
  | char c => exact .char c
  | ref v => exact .ref v

theorem length_eq {t : Ty} {fields : List Slot} (complete : (Slot.struct t fields).Complete r) :
    fields.length = (r.layout t).length := by
  cases complete with
  | struct finished length each => exact length

end Slot.Complete

theorem Registry.NestedWithin.complete {r : Registry} {depth : Nat} {t : Ty}
    (nested : r.NestedWithin depth t) : (r.initialWithin depth t).Complete r := by
  induction nested with
  | @flat depth t flat =>
    cases t with
    | structType id => cases flat
    | primitive p => cases depth <;> cases p <;> constructor
    | _ => cases depth <;> exact .ref .null
  | struct finished each ih =>
    rw [initialWithin]
    refine .struct finished (List.length_map _) fun s mem => ?_
    obtain ⟨u, inLayout, rfl⟩ := List.mem_map.mp mem
    exact ih u inLayout

/-- The default of a type is complete, unless it is a value type that is not finished. -/
theorem Registry.Nests.initial_complete {r : Registry} (nests : r.Nests) {t : Ty}
    (settled : t.isStruct = true → r.Finished t) : (r.initial t).Complete r := by
  have nested : r.NestedWithin r.types.size t := by
    by_cases struct : t.isStruct = true
    · exact (nests.nested t struct (settled struct)).mono r.card_finishedIds_le
    · exact .flat _ (Bool.eq_false_iff.mpr struct)
  exact nested.complete

namespace Registry

/-- Whether all instance fields of `t` can be read out of a value with these fields, whether it is
unboxed or boxed. -/
structure Readable (r : Registry) (t : Ty) (fields : List Slot) : Prop where
  unboxed : ∀ g, r.Declares g → g.declaring = t → g.isStatic = false → ∀ h,
    ∃ s, g.loadUnboxed r t fields h = (.ok s, h)
  boxed : ∀ g, r.Declares g → g.declaring = t → g.isStatic = false → ∀ h : Heap,
    ∃ s, g.load r (.object (h.alloc t fields).1) (h.alloc t fields).2 =
      (.ok s, (h.alloc t fields).2)

/-- The slot of an instance field of a finished value type is one of its layout. -/
theorem Sound.lt_length_layout {r : Registry} (sound : r.Sound) {t : Ty} (finished : r.Finished t)
    {g : Field} (declared : r.Declares g) (own : g.declaring = t) {index : Nat}
    (storage : g.storage = .slot index) : index < (r.layout t).length := by
  have accepts : r.assignable g.declaring t = true := if_pos own
  have wanted := sound.type_of_slot finished declared accepts storage
  exact (List.getElem?_eq_some_iff.mp wanted).1

theorem readable_of_complete {r : Registry} (sound : r.Sound) {t : Ty} {fields : List Slot}
    (complete : (Slot.struct t fields).Complete r) : r.Readable t fields := by
  have whole := complete.length_eq
  cases complete with
  | struct finished length each =>
    have held {g : Field} (declared : r.Declares g) (own : g.declaring = t)
        (isInstance : g.isStatic = false) :
        ∃ index s, g.storage = .slot index ∧ fields[index]? = some s := by
      obtain ⟨index, storage⟩ := Field.exists_slot isInstance
      have bound := sound.lt_length_layout finished declared own storage
      rw [← length] at bound
      exact ⟨index, _, storage, List.getElem?_eq_getElem bound⟩
    refine ⟨fun g declared own isInstance h => ?_, fun g declared own isInstance h => ?_⟩
    · obtain ⟨index, s, storage, found⟩ := held declared own isInstance
      refine ⟨s, ?_⟩
      unfold Field.loadUnboxed
      simp only [storage, own, found, if_pos]
      rfl
    · obtain ⟨index, s, storage, found⟩ := held declared own isInstance
      have accepts : r.assignable g.declaring (h.alloc t fields).1.type = true :=
        if_pos own
      refine ⟨s, Field.load_of_held storage accepts ?_⟩
      rw [Heap.load?, Heap.slots, Heap.slots?_alloc_self, Option.getD_some]
      exact found

end Registry

/-- What is found in a location of value type `t` that was filled when definitions were at `r`, now
that they are at `r'`. -/
structure Registry.Captured (r r' : Registry) (t : Ty) (fields : List Slot) : Prop where
  /-- All is there if `t` had been finished by then. -/
  whole : r.isFinished t = true → (Slot.struct t fields).Complete r' ∧
    fields.length = (r'.layout t).length ∧ r'.Readable t fields
  /-- Nothing is there if it had not, and no instance field can be read. -/
  empty : r.isFinished t = false → fields = [] ∧
    ∀ g, r'.Declares g → g.declaring = t → ∀ index, g.storage = .slot index → ∀ h,
      g.loadUnboxed r' t fields h = (.error (g.slotMissing r' index), h)

theorem Registry.captured_initial {r r' : Registry} (nests : r.Nests) (sound : r'.Sound)
    (grows : r.Grows r') {t : Ty} (struct : t.isStruct = true) (finished : r'.Finished t) :
    ∃ fields, r.initial t = .struct t fields ∧ r.Captured r' t fields := by
  cases t with
  | structType id =>
    by_cases isFinished : r.isFinished (.structType id) = true
    · have before := grows.finished_of_knows isFinished finished.1
      have initial := nests.initial_structType before.1
      have complete := (nests.initial_complete fun _ => before).grows grows
      rw [initial, initialStruct] at complete
      refine ⟨_, initial, fun _ => ⟨complete, complete.length_eq, ?_⟩, fun unfinished => ?_⟩
      · exact readable_of_complete sound complete
      · rw [isFinished] at unfinished
        cases unfinished
    · refine ⟨[], ?_, fun whole => absurd whole isFinished, fun _ => ⟨rfl, ?_⟩⟩
      · unfold Registry.initial
        cases r.types.size with
        | zero => rfl
        | succ size => rw [initialWithin, layout_of_not_finished isFinished, List.map_nil]
      · intro g declared own index storage h
        unfold Field.loadUnboxed
        simp only [storage, own, if_pos, List.getElem?_nil]
        rfl
  | _ => cases struct

namespace World

/-- Makes an instance. -/
def alloc (w : World) (c : Ty) : World :=
  ⟨w.registry, (w.memory.heap.alloc c (w.registry.initialSlots c)).2, w.memory.types.push c⟩

/-- Reads a static field. -/
def read (w : World) (f : Field) : World :=
  ⟨w.registry, (w.memory.heap.readStatic w.registry f).2, w.memory.types⟩

/-- Types are defined, instances of finished classes are made and static fields are read, in any
order. -/
inductive Prepares (w : World) : World → Prop
  | refl : Prepares w w
  | define {w' : World} (before : Prepares w w') (e : Edit) (legal : e.Legal w'.registry) :
      Prepares w ⟨e.apply w'.registry, w'.memory⟩
  | alloc {w' : World} (before : Prepares w w') (c : Ty) (isClass : c.isClass = true)
      (finished : w'.registry.Finished c) : Prepares w (w'.alloc c)
  | read {w' : World} (before : Prepares w w') (f : Field) (declared : w'.registry.Declares f) :
      Prepares w (w'.read f)

namespace Prepares

variable {w w' : World} (prepares : w.Prepares w')

include prepares

theorem reaches : w.registry.Reaches w'.registry := by
  induction prepares with
  | refl => exact .refl
  | define before e legal ih => exact ih.edit e legal
  | alloc before c isClass finished ih => exact ih
  | read before f declared ih => exact ih

/-- An object keeps its slots. -/
theorem slots? {o : ObjectRef} {slots : List Slot} (found : w.memory.heap.slots? o = some slots) :
    w'.memory.heap.slots? o = some slots := by
  induction prepares with
  | refl => exact found
  | define before e legal ih => exact ih
  | alloc before c isClass finished ih => exact Heap.slots?_alloc_of_some c _ ih
  | @read w' before f declared ih =>
    exact (Heap.Keeps.readStatic w'.registry w'.memory.heap f).objects o slots ih

/-- A static cell that has been filled keeps what it holds. -/
theorem static? {f : Field} {s : Slot} (found : w.memory.heap.static? f = some s) :
    w'.memory.heap.static? f = some s := by
  induction prepares with
  | refl => exact found
  | define before e legal ih => exact ih
  | alloc before c isClass finished ih => exact ih
  | @read w' before g declared ih =>
    show (w'.memory.heap.readStatic w'.registry g).2.static? f = some s
    unfold Heap.readStatic
    cases filled : w'.memory.heap.static? g with
    | some s' => exact ih
    | none =>
      by_cases same : f = g
      · subst same
        rw [filled] at ih
        cases ih
      · rw [Heap.static?_setStatic_of_ne _ _ same]
        exact ih

end Prepares

theorem prepares_of_definitions {r r' : Registry} (m : Memory) (reached : r.Reaches r') :
    Prepares ⟨r, m⟩ ⟨r', m⟩ := by
  induction reached with
  | refl => exact .refl
  | edit reached e legal ih => exact ih.define e legal

section

variable {w w' : World} (reached : Prepares {} w)

include reached

theorem slot_captured {c : Ty} (finished : w.registry.Finished c) (later : (w.alloc c).Prepares w')
    {f : Field} {index : Nat} (declared : w'.registry.Declares f)
    (storage : f.storage = .slot index) (accepts : w'.registry.assignable f.declaring c = true)
    (struct : f.type.isStruct = true) (settled : w'.registry.Finished f.type) :
    ∃ fields, f.load w'.registry (.object ⟨c, w.memory.heap.objects.size⟩) w'.memory.heap =
        (.ok (.struct f.type fields), w'.memory.heap) ∧
      w.registry.Captured w'.registry f.type fields := by
  have sound := Registry.sound_of_reaches (reached.reaches.trans later.reaches)
  have grows := later.reaches.grows
  obtain ⟨fields, initial, captured⟩ := Registry.captured_initial
    (Registry.nests_of_reaches reached.reaches) sound grows struct settled
  refine ⟨fields, ?_, captured⟩
  -- The slots of the instance are still those that it was made with.
  have made : (w.alloc c).memory.heap.slots? ⟨c, w.memory.heap.objects.size⟩ =
      some (w.registry.initialSlots c) :=
    Heap.slots?_alloc_self w.memory.heap c (w.registry.initialSlots c)
  have kept := later.slots? made
  have wanted : (w.registry.layout c)[index]? = some f.type := by
    have same : w'.registry.layout c = w.registry.layout c := grows.layout finished.2
    rw [← same]
    exact sound.type_of_slot (grows.finished finished) declared accepts storage
  apply Field.load_of_held storage accepts
  rw [Heap.load?, Heap.slots, kept, Option.getD_some, Registry.initialSlots, List.getElem?_map,
    wanted, Option.map_some, initial]

theorem static_captured {f : Field} (storage : f.storage = .static)
    (fresh : w.memory.heap.static? f = none) (later : (w.read f).Prepares w')
    (struct : f.type.isStruct = true) (settled : w'.registry.Finished f.type) (target : Value) :
    ∃ fields,
      f.load w.registry target w.memory.heap =
        (.ok (.struct f.type fields), (w.read f).memory.heap) ∧
      f.load w'.registry target w'.memory.heap =
        (.ok (.struct f.type fields), w'.memory.heap) ∧
      w.registry.Captured w'.registry f.type fields := by
  have sound := Registry.sound_of_reaches (reached.reaches.trans later.reaches)
  obtain ⟨fields, initial, captured⟩ := Registry.captured_initial
    (Registry.nests_of_reaches reached.reaches) sound later.reaches.grows struct settled
  have read : w.memory.heap.readStatic w.registry f =
      (.struct f.type fields, w.memory.heap.setStatic f (.struct f.type fields)) := by
    simp only [Heap.readStatic, fresh, initial]
  have filled : (w.read f).memory.heap = w.memory.heap.setStatic f (.struct f.type fields) :=
    congrArg Prod.snd read
  have held : (w.read f).memory.heap.static? f = some (.struct f.type fields) := by
    rw [filled, Heap.static?_setStatic_self]
  have kept := later.static? held
  refine ⟨fields, ?_, ?_, captured⟩
  · rw [Field.load_static storage, filled, Run.modifyGet_apply, read]
  · rw [Field.load_static storage, Run.modifyGet_apply, Heap.readStatic, kept]

end

/-- In whatever order types are defined, instances of finished classes made and static fields read:
where an instance field or a static field is of a finished value type, it gives a value that has all
slots of its layout and can be read in every instance field, provided that the value type had been
finished when the instance was made, or when the static field was first read. If not, the value has
no slots, and reading an instance field fails for want of its slot. -/
theorem struct_layouts {w w' : World} (reached : Prepares {} w) :
    (∀ c, c.isClass = true → w.registry.Finished c → (w.alloc c).Prepares w' →
      ∀ f index, w'.registry.Declares f → f.storage = .slot index →
        w'.registry.assignable f.declaring c = true → f.type.isStruct = true →
          w'.registry.Finished f.type →
      ∃ fields, f.load w'.registry (.object ⟨c, w.memory.heap.objects.size⟩) w'.memory.heap =
          (.ok (.struct f.type fields), w'.memory.heap) ∧
        w.registry.Captured w'.registry f.type fields) ∧
    ∀ f, w.registry.Declares f → f.storage = .static → w.memory.heap.static? f = none →
      (w.read f).Prepares w' → f.type.isStruct = true → w'.registry.Finished f.type →
        ∀ target, ∃ fields,
          f.load w.registry target w.memory.heap =
            (.ok (.struct f.type fields), (w.read f).memory.heap) ∧
          f.load w'.registry target w'.memory.heap =
            (.ok (.struct f.type fields), w'.memory.heap) ∧
          w.registry.Captured w'.registry f.type fields := by
  refine ⟨fun c _ finished later f index declared storage accepts struct settled => ?_,
    fun f _ storage fresh later struct settled target => ?_⟩
  · exact slot_captured reached finished later declared storage accepts struct settled
  · exact static_captured reached storage fresh later struct settled target

end World

/-! A pen has an ink, which is a color; there is one color that is known to all. -/

namespace Palette

def color : Ty := .structType 0
def pen : Ty := .classType 1

def shade : Field := ⟨color, 0, "Shade", .int32, true, false, .slot 0⟩
def black : Field := ⟨color, 1, "Black", color, true, false, .static⟩
def ink : Field := ⟨pen, 0, "Ink", color, true, false, .slot 0⟩

/-- Pens are finished and colors are not. -/
def edits : List Edit :=
  [.startStruct "Color", .startClass "Pen", .addField pen "Ink" color { isPublic := true },
    .finish pen, .addField color "Shade" .int32 { isPublic := true },
    .addField color "Black" color { isPublic := true, isStatic := true }]

def pending : Registry :=
  { types := #[
      ⟨"Color", [], .draft { fields := [shade, black], layout := [.int32] }⟩,
      ⟨"Pen", [.object], .finished (Draft.members { fields := [ink], layout := [color] })⟩] }

def registry : Registry :=
  { types := #[
      ⟨"Color", [], .finished (Draft.members { fields := [shade, black], layout := [.int32] })⟩,
      ⟨"Pen", [.object], .finished (Draft.members { fields := [ink], layout := [color] })⟩] }

theorem replay_edits : Registry.replay {} edits = some pending := by rfl

theorem replay_finish : pending.replay [.finish color] = some registry := by rfl

theorem reaches_pending : Registry.Reaches {} pending :=
  Registry.reaches_of_replay replay_edits

theorem reaches_registry : pending.Reaches registry :=
  Registry.reaches_of_replay replay_finish

/-- A pen has been made and black has been read before colors are finished. -/
def early : World :=
  (World.alloc ⟨pending, {}⟩ pen).read black

end Palette

namespace World

/-- A pen that is made, and a black that is read, before colors are finished have no shade when they
are. -/
theorem struct_layouts_pending :
    Prepares {} ⟨Palette.pending, {}⟩ ∧ Palette.pending.Finished Palette.pen ∧
      Prepares ⟨Palette.pending, {}⟩ Palette.early ∧
      Palette.early.Prepares ⟨Palette.registry, Palette.early.memory⟩ ∧
      Palette.registry.Finished Palette.color ∧
      (Palette.registry.layout Palette.color).length = 1 ∧
      Palette.ink.load Palette.registry (.object ⟨Palette.pen, 0⟩) Palette.early.memory.heap =
        (.ok (.struct Palette.color []), Palette.early.memory.heap) ∧
      Palette.black.load Palette.registry .null Palette.early.memory.heap =
        (.ok (.struct Palette.color []), Palette.early.memory.heap) ∧
      Palette.shade.loadUnboxed Palette.registry Palette.color [] Palette.early.memory.heap =
        (.error (.invalidProgram "slot 0 missing for field Color::Shade"),
          Palette.early.memory.heap) := by
  have pen : Palette.pending.Finished Palette.pen := ⟨by decide, by decide⟩
  have color : Palette.registry.Finished Palette.color := ⟨by decide, by decide⟩
  have made : Prepares ⟨Palette.pending, {}⟩ (alloc ⟨Palette.pending, {}⟩ Palette.pen) :=
    .alloc .refl Palette.pen rfl pen
  have read := made.read Palette.black ⟨_, rfl, List.mem_cons_of_mem _ List.mem_cons_self⟩
  refine ⟨prepares_of_definitions {} Palette.reaches_pending, pen, read, ?_, color, by decide,
    by rfl, by rfl, by rfl⟩
  exact prepares_of_definitions _ Palette.reaches_registry

/-- Once colors are finished, a new pen has an ink with a shade, and so has black. -/
theorem struct_layouts_palette :
    Prepares {} ⟨Palette.registry, {}⟩ ∧ Palette.registry.Finished Palette.pen ∧
      Palette.registry.Finished Palette.color ∧
      (∃ fields, Palette.ink.load Palette.registry (.object ⟨Palette.pen, 0⟩)
          (alloc ⟨Palette.registry, {}⟩ Palette.pen).memory.heap =
            (.ok (.struct Palette.color fields),
              (alloc ⟨Palette.registry, {}⟩ Palette.pen).memory.heap) ∧
        fields.length = 1 ∧ Palette.registry.Readable Palette.color fields) ∧
      ∃ fields, Palette.black.load Palette.registry .null {} =
          (.ok (.struct Palette.color fields),
            (read ⟨Palette.registry, {}⟩ Palette.black).memory.heap) ∧
        fields.length = 1 ∧ Palette.registry.Readable Palette.color fields := by
  have reached : Prepares {} ⟨Palette.registry, {}⟩ :=
    prepares_of_definitions {} (Palette.reaches_pending.trans Palette.reaches_registry)
  have pen : Palette.registry.Finished Palette.pen := ⟨by decide, by decide⟩
  have color : Palette.registry.Finished Palette.color := ⟨by decide, by decide⟩
  refine ⟨reached, pen, color, ?_, ?_⟩
  · have later := Prepares.refl (w := alloc ⟨Palette.registry, {}⟩ Palette.pen)
    obtain ⟨fields, loaded, captured⟩ := (struct_layouts reached).1 _ rfl pen later Palette.ink 0
      ⟨_, rfl, List.mem_cons_self⟩ rfl (by decide) rfl color
    obtain ⟨_, length, readable⟩ := captured.whole color.2
    exact ⟨fields, loaded, length, readable⟩
  · have later := Prepares.refl (w := read ⟨Palette.registry, {}⟩ Palette.black)
    obtain ⟨fields, loaded, _, captured⟩ := (struct_layouts reached).2 Palette.black
      ⟨_, rfl, List.mem_cons_of_mem _ List.mem_cons_self⟩ rfl rfl later rfl color .null
    obtain ⟨_, length, readable⟩ := captured.whole color.2
    exact ⟨fields, loaded, length, readable⟩

end World

end MemberAccess
