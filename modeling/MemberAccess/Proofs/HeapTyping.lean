import MemberAccess.Proofs.ScriptedBodies

/-!
Heap typing. Types are defined and members are used in turn; an instance of a class that has been
finished before has a slot for each entry of the layout of its class, and what is in the slot fits
there. A store through a field of a base class keeps this, since the slots of the base come first.
-/

namespace MemberAccess

theorem Slot.fits_grows {r r' : Registry} (grows : r.Grows r') {s : Slot} {t : Ty}
    (fits : s.fits r t = true) : s.fits r' t = true := by
  cases s with
  | ref v =>
    rw [Slot.fits, Bool.and_eq_true] at fits ⊢
    refine ⟨fits.1, ?_⟩
    cases runtime : v.runtimeType? with
    | none => rfl
    | some u =>
      rw [runtime] at fits
      exact grows.assignable fits.2
  | _ => exact fits

/-- Whether there is a slot for each entry of a layout, holding what fits there. -/
structure Registry.Conform (r : Registry) (slots : List Slot) (layout : List Ty) : Prop where
  length : slots.length = layout.length
  fits : ∀ (i : Nat) (s : Slot) (t : Ty), slots[i]? = some s → layout[i]? = some t →
    s.fits r t = true

namespace Registry.Conform

variable {r : Registry} {slots : List Slot} {layout : List Ty}

theorem grows {r' : Registry} (conform : r.Conform slots layout) (grows : r.Grows r') :
    r'.Conform slots layout :=
  ⟨conform.length, fun i s t held wanted => Slot.fits_grows grows (conform.fits i s t held wanted)⟩

theorem set (conform : r.Conform slots layout) {i : Nat} {s : Slot} {t : Ty}
    (wanted : layout[i]? = some t) (fits : s.fits r t = true) :
    r.Conform (slots.set i s) layout := by
  refine ⟨List.length_set.trans conform.length, fun j s' t' held wanted' => ?_⟩
  rw [List.getElem?_set] at held
  by_cases same : i = j
  · subst same
    rw [wanted] at wanted'
    cases wanted'
    rw [if_pos rfl] at held
    split at held
    · cases held
      exact fits
    · cases held
  · rw [if_neg same] at held
    exact conform.fits j s' t' held wanted'

theorem initialSlots {t : Ty} (typed : ∀ u ∈ r.layout t, u ≠ .void) :
    r.Conform (r.initialSlots t) (r.layout t) := by
  refine ⟨List.length_map _, fun i s u held wanted => ?_⟩
  rw [Registry.initialSlots, List.getElem?_map, wanted, Option.map_some] at held
  cases held
  exact r.initial_fits (typed u (List.mem_of_getElem? wanted))

end Registry.Conform

/-- A registry and a store with what its objects were made as. -/
structure World where
  registry : Registry := {}
  memory : Memory := {}

namespace World

/-- Types are defined, none of them with a field of type `Void`, and members do their acts. -/
inductive Step (w : World) : World → Prop
  | define (e : Edit) (legal : e.Legal w.registry)
      (typed : (e.apply w.registry).Typed) : Step w ⟨e.apply w.registry, w.memory⟩
  | act (m : Memory) (act : Memory.Act w.registry w.memory m) : Step w ⟨w.registry, m⟩

inductive Reaches (w : World) : World → Prop
  | refl : Reaches w w
  | step {w' w'' : World} (first : Reaches w w') (step : Step w' w'') : Reaches w w''

theorem Step.grows {w w' : World} (step : w.Step w') : w.registry.Grows w'.registry := by
  cases step with
  | define e legal typed => exact (Edit.change legal.known).grows
  | act m act => exact .refl w.registry

theorem Reaches.grows {w w' : World} (reached : w.Reaches w') :
    w.registry.Grows w'.registry := by
  induction reached with
  | refl => exact .refl w.registry
  | step first step ih => exact ih.trans step.grows

theorem Reaches.trans {w w' w'' : World} (first : w.Reaches w') (second : w'.Reaches w'') :
    w.Reaches w'' := by
  induction second with
  | refl => exact first
  | step _ step ih => exact .step ih step

/-- Definitions can be made first, since none of what they end with takes a field of type `Void`. -/
theorem reaches_of_definitions {r r' : Registry} (m : Memory) (reached : r.Reaches r')
    (typed : r'.Typed) : Reaches ⟨r, m⟩ ⟨r', m⟩ := by
  induction reached with
  | refl => exact .refl
  | edit reached e legal ih =>
    have before := ih fun f declared => typed f ((Edit.change legal.known).grows.declares declared)
    exact .step before (.define e legal typed)

theorem Reaches.acts {w w' : World} {m : Memory} (reached : w.Reaches w')
    (acts : Memory.Acts w'.registry w'.memory m) : w.Reaches ⟨w'.registry, m⟩ := by
  induction acts with
  | refl => exact reached
  | step first act ih => exact .step ih (.act _ act)

/-- Whether every static cell that has been filled holds what fits there. -/
def StaticsFit (r : Registry) (h : Heap) : Prop :=
  ∀ f s, h.static? f = some s → s.fits r f.type = true

theorem StaticsFit.setStatic {r : Registry} {h : Heap} (statics : StaticsFit r h) {f : Field}
    {s : Slot} (fits : s.fits r f.type = true) : StaticsFit r (h.setStatic f s) := by
  intro g s' found
  by_cases same : g = f
  · subst same
    rw [Heap.static?_setStatic_self] at found
    cases found
    exact fits
  · rw [Heap.static?_setStatic_of_ne h s same] at found
    exact statics g s' found

theorem StaticsFit.act {r : Registry} (typed : r.Typed)
    {m m' : Memory} (statics : StaticsFit r m.heap) (act : Memory.Act r m m') :
    StaticsFit r m'.heap := by
  cases act with
  | readStatic f declared =>
    show StaticsFit r (m.heap.readStatic r f).2
    unfold Heap.readStatic
    cases m.heap.static? f with
    | some s => exact statics
    | none => exact statics.setStatic (r.initial_fits (typed f declared))
  | store f v s declared target stored =>
    have stores := f.stores r v s m.heap
    show StaticsFit r (f.store r v s m.heap).2
    generalize (f.store r v s m.heap).2 = after at stores ⊢
    cases stores with
    | nothing => exact statics
    | static storage fits => exact statics.setStatic fits
    | slot index o storage fits accepted bound => exact statics
  | _ => exact statics

/-- What holds of every world that definitions and acts lead to. -/
structure Sound (w : World) : Prop where
  registry : w.registry.Sound
  typed : w.registry.Typed
  genuine : w.memory.Genuine
  statics : StaticsFit w.registry w.memory.heap

theorem Sound.step {w w' : World} (sound : w.Sound) (step : w.Step w') : w'.Sound := by
  cases step with
  | define e legal typed =>
    have change := Edit.change legal.known
    exact ⟨sound.registry.change change, typed, sound.genuine,
      fun f s found => Slot.fits_grows change.grows (sound.statics f s found)⟩
  | act m act =>
    exact ⟨sound.registry, sound.typed, sound.genuine.act act, sound.statics.act sound.typed act⟩

theorem sound_of_reaches {w : World} (reached : Reaches {} w) : w.Sound := by
  induction reached with
  | refl =>
    refine ⟨fun id d found => (by cases found), fun f declared => ?_, ⟨rfl, ?_, ?_, ?_⟩, ?_⟩
    · obtain ⟨d, found, _⟩ := declared
      obtain ⟨id, _, found⟩ := Option.bind_eq_some_iff.mp found
      cases found
    · exact fun a slots found => by cases found
    · exact fun a items found => by cases found
    · exact fun f s found => by cases found
    · exact fun f s found => by cases found
  | step first step ih => exact ih.step step

namespace Sound

variable {w : World} (sound : w.Sound) {c : Ty} (finished : w.registry.Finished c)

include sound finished

theorem layout_typed : ∀ t ∈ w.registry.layout c, t ≠ .void := by
  intro t mem
  obtain ⟨i, found⟩ := List.getElem?_of_mem mem
  have cell : (t, i) ∈ (w.registry.layout c).zipIdx := List.mem_zipIdx_iff_getElem?.mpr found
  rw [← sound.registry.cells_visibleFields finished] at cell
  obtain ⟨f, visible, same⟩ := List.mem_filterMap.mp cell
  obtain ⟨_, _, pair⟩ := Option.map_eq_some_iff.mp same
  obtain ⟨rfl, _⟩ := Prod.mk.inj pair
  exact sound.typed f ((sound.registry.mem_visibleFields_iff finished).mp visible).1

end Sound

/-- Whether the instances of `c` from address `first` on have the slots that the layout of `c`
wants, with contents that fit. -/
def InstancesConform (w : World) (c : Ty) (first : Nat) : Prop :=
  ∀ (a : Nat) (slots : List Slot), first ≤ a → w.memory.types[a]? = some c →
    w.memory.heap.objects[a]? = some slots → w.registry.Conform slots (w.registry.layout c)

namespace InstancesConform

variable {w : World} {c : Ty} {first : Nat} (sound : w.Sound) (finished : w.registry.Finished c)
  (conform : w.InstancesConform c first)

include conform

theorem define {r : Registry} (grows : w.registry.Grows r) (finished : w.registry.Finished c) :
    InstancesConform ⟨r, w.memory⟩ c first := by
  intro a slots later made found
  show r.Conform slots (r.layout c)
  rw [grows.layout finished.2]
  exact (conform a slots later made found).grows grows

/-- A new object conforms if it is an instance of `c` only where it has been made as one. -/
theorem alloc (genuine : w.memory.Genuine) (t : Ty) {slots : List Slot}
    (fresh : t = c → w.registry.Conform slots (w.registry.layout c)) :
    InstancesConform
      ⟨w.registry, ⟨(w.memory.heap.alloc t slots).2, w.memory.types.push t⟩⟩ c first := by
  intro a old later made found
  simp only [Heap.alloc, Array.getElem?_push, genuine.size] at made found
  by_cases last : a = w.memory.heap.objects.size
  · rw [if_pos last] at made found
    cases found
    exact fresh (Option.some.inj made)
  · rw [if_neg last] at made found
    exact conform a old later made found

include sound finished

/-- A store through a field keeps instances of `c` conforming: what fits the field fits the slot. -/
theorem storeSlot {f : Field} (declared : w.registry.Declares f) {v : Value}
    (genuine : v.Genuine w.memory.types) {index : Nat} {o : ObjectRef} {s : Slot}
    (storage : f.storage = .slot index) (fits : s.fits w.registry f.type = true)
    (accepted : f.receiver w.registry v = .ok o) :
    InstancesConform ⟨w.registry, ⟨w.memory.heap.store o index s, w.memory.types⟩⟩ c first := by
  intro a slots later made found
  simp only [Heap.store, Array.getElem?_modify] at found
  by_cases same : o.address = a
  · rw [if_pos same] at found
    obtain ⟨old, held, rfl⟩ := Option.map_eq_some_iff.mp found
    obtain ⟨rfl, accepts⟩ := Field.of_receiver_eq_ok accepted
    -- The reference is genuine, so it is accepted as an instance of the class it was made as.
    have type : o.type = c := by
      have known : w.memory.types[o.address]? = some o.type := genuine
      rw [same] at known
      exact Option.some.inj (known.symm.trans made)
    rw [type] at accepts
    exact (conform a old later made held).set
      (sound.registry.type_of_slot finished declared accepts storage) fits
  · rw [if_neg same] at found
    exact conform a slots later made found

theorem act (isClass : c.isClass = true) {m : Memory}
    (act : Memory.Act w.registry w.memory m) : InstancesConform ⟨w.registry, m⟩ c first := by
  cases act with
  | alloc t =>
    refine conform.alloc sound.genuine t fun same => ?_
    rw [same]
    exact .initialSlots (sound.layout_typed finished)
  | box t fields struct genuine =>
    refine conform.alloc sound.genuine t fun same => ?_
    rw [same] at struct
    cases c <;> first | cases struct; done | cases isClass
  | newArray items genuine => exact conform
  | setItem a index v genuine => exact conform
  | readStatic f declared =>
    unfold Heap.readStatic
    cases w.memory.heap.static? f <;> exact conform
  | store f v s declared target stored =>
    have stores := f.stores w.registry v s w.memory.heap
    generalize (f.store w.registry v s w.memory.heap).2 = after at stores ⊢
    cases stores with
    | nothing => exact conform
    | static storage fits => exact conform
    | slot index o storage fits accepted bound =>
      exact conform.storeSlot sound finished declared target storage fits accepted

end InstancesConform

theorem instances_conform {w w' : World} (reached : Reaches {} w) (later : w.Reaches w') {c : Ty}
    (isClass : c.isClass = true) (finished : w.registry.Finished c) :
    w'.InstancesConform c w.memory.heap.objects.size := by
  induction later with
  | refl =>
    -- Nothing has been made yet: an address from `first` on holds no object.
    intro a slots later made found
    obtain ⟨bound, _⟩ := Array.getElem?_eq_some_iff.mp found
    exact absurd bound (Nat.not_lt.mpr later)
  | step first step ih =>
    have grows := first.grows
    have finished' := And.intro (grows.knows finished.1) (grows.isFinished finished.2)
    cases step with
    | define e legal typed => exact ih.define (Edit.change legal.known).grows finished'
    | act m act =>
      have sound := sound_of_reaches (reached.trans first)
      exact ih.act sound finished' isClass act

/-- Whether an instance field can be read and written on a receiver: what is read fits it, and what
fits it can be stored. -/
structure Accessible (r : Registry) (h : Heap) (f : Field) (target : Value) : Prop where
  load : ∃ s, f.load r target h = (.ok s, h) ∧ s.fits r f.type = true
  store : ∀ s, s.fits r f.type = true → ∃ h', f.store r target s h = (.ok (), h')

theorem Sound.accessible {w : World} (sound : w.Sound) {c : Ty}
    (finished : w.registry.Finished c) {a : Nat} {slots : List Slot}
    (found : w.memory.heap.objects[a]? = some slots)
    (conform : w.registry.Conform slots (w.registry.layout c)) {f : Field}
    (declared : w.registry.Declares f) (isInstance : f.isStatic = false) {o : ObjectRef}
    (accepted : f.receiver w.registry (.object ⟨c, a⟩) = .ok o) :
    Accessible w.registry w.memory.heap f (.object ⟨c, a⟩) := by
  obtain ⟨same, accepts⟩ := Field.of_receiver_eq_ok accepted
  cases same
  obtain ⟨index, storage⟩ := Field.exists_slot isInstance
  have wanted := sound.registry.type_of_slot finished declared accepts storage
  obtain ⟨inLayout, _⟩ := List.getElem?_eq_some_iff.mp wanted
  have bound : index < slots.length := conform.length.symm ▸ inLayout
  have all : w.memory.heap.slots ⟨c, a⟩ = slots := by
    rw [Heap.slots, Heap.slots?, found, Option.getD_some]
  have held : w.memory.heap.load? ⟨c, a⟩ index = some slots[index] := by
    rw [Heap.load?, all, List.getElem?_eq_getElem bound]
  refine ⟨⟨slots[index], Field.load_of_held storage accepts held, ?_⟩,
    fun s fits => ⟨w.memory.heap.store ⟨c, a⟩ index s, ?_⟩⟩
  · exact conform.fits index _ _ (List.getElem?_eq_getElem bound) wanted
  · exact Field.store_of_bound storage accepts fits (by rwa [all])

/-- Wherever definitions and the acts of members lead to from a world in which a class is finished,
the instances made since then have the slots of the layout of the class, what they hold fits, and
so do static cells; hence no slot is missing where a field accepts such an instance. Using a member
is nothing but a sequence of acts, and what it gives can be used in turn, if the bodies of members
are made of acts. -/
theorem heap_typed {w w' : World} (reached : Reaches {} w) (later : w.Reaches w') {c : Ty}
    (isClass : c.isClass = true) (finished : w.registry.Finished c) :
    (∀ a, w.memory.heap.objects.size ≤ a → w'.memory.types[a]? = some c →
      ∃ slots, w'.memory.heap.objects[a]? = some slots ∧
        slots.length = (w'.registry.layout c).length ∧
        (∀ (i : Nat) (s : Slot) (t : Ty), slots[i]? = some s →
          (w'.registry.layout c)[i]? = some t → s.fits w'.registry t = true) ∧
        ∀ f o, w'.registry.Declares f → f.isStatic = false →
          f.receiver w'.registry (.object ⟨c, a⟩) = .ok o →
          Accessible w'.registry w'.memory.heap f (.object ⟨c, a⟩)) ∧
    (∀ f s, w'.memory.heap.static? f = some s → s.fits w'.registry f.type = true) ∧
    ∀ b : Bodies, b.Built w'.registry →
      ∀ o : Operation, o.Legal w'.registry w'.memory.types →
        ∃ m, w'.Reaches ⟨w'.registry, m⟩ ∧
          (o.run ⟨w'.registry, b⟩ w'.memory.heap).2 = m.heap ∧
          ∀ s, (o.run ⟨w'.registry, b⟩ w'.memory.heap).1 = .ok s → s.Genuine m.types := by
  have sound := sound_of_reaches (reached.trans later)
  have grows := later.grows
  have finished' := And.intro (grows.knows finished.1) (grows.isFinished finished.2)
  refine ⟨fun a new made => ?_, sound.statics, fun b built o legal => ?_⟩
  · obtain ⟨bound, _⟩ := Array.getElem?_eq_some_iff.mp made
    rw [sound.genuine.size] at bound
    have found := Array.getElem?_eq_getElem bound
    have conform := instances_conform reached later isClass finished a _ new made found
    exact ⟨_, found, conform.length, conform.fits, fun f o declared isInstance accepted =>
      sound.accessible finished' found conform declared isInstance accepted⟩
  · have tracks := Operation.run_tracks (p := ⟨w'.registry, b⟩) sound.genuine built legal
    obtain ⟨m, acts, left, given⟩ := tracks
    exact ⟨m, Reaches.acts .refl acts, left, given⟩

end World

namespace Drawing

def first : Value := .object ⟨square, 0⟩

/-- A square that has been given a name; its corner is where corners are by default. -/
def heap : Heap := { objects := #[[.ref (.string "first"), .struct point [.int32 0]]] }

theorem declares_name : registry.Declares name := ⟨_, rfl, List.mem_cons_self⟩

theorem reaches_heap : World.Reaches ⟨registry, {}⟩ ⟨registry, heap, #[square]⟩ := by
  have genuine : first.Genuine #[square] := rfl
  have made : Memory.Act registry {}
      ⟨{ objects := #[[.null, .struct point [.int32 0]]] }, #[square]⟩ :=
    .alloc square
  have named : Memory.Act registry
      ⟨{ objects := #[[.null, .struct point [.int32 0]]] }, #[square]⟩ ⟨heap, #[square]⟩ :=
    .store name first (.ref (.string "first")) declares_name genuine (.ref True.intro)
  exact .step (.step .refl (.act _ made)) (.act _ named)

/-- The body of `rename` stores its argument in the first field of the receiver. -/
def host : Host :=
  ⟨registry, #[{ methods := #[.script (.store (.nth shape 0) .receiver (.arg 0))] }, {}, {}]⟩

theorem host_built : host.Built := by
  intro b mem
  simp only [host, List.mem_toArray, List.mem_cons, List.not_mem_nil, or_false] at mem
  rcases mem with rfl | rfl | rfl
  · refine ⟨fun body mem => ?_, fun _ mem => absurd mem (Array.not_mem_empty _)⟩
    rw [Array.mem_singleton.mp mem]
    exact ⟨True.intro, True.intro, True.intro⟩
  · exact .empty registry
  · exact .empty registry

end Drawing

namespace World

/-- The name of the square is a slot of shapes, and the method of shapes that changes it works. -/
theorem heap_typed_square :
    Reaches {} ⟨Drawing.registry, {}⟩ ∧
      Reaches ⟨Drawing.registry, {}⟩ ⟨Drawing.registry, Drawing.heap, #[Drawing.square]⟩ ∧
      Drawing.square.isClass = true ∧ Drawing.registry.Finished Drawing.square ∧
      (Drawing.host.bodiesWithin 1).Built Drawing.registry ∧
      (∃ slots, Drawing.heap.objects[0]? = some slots ∧ slots.length = 2 ∧
        Accessible Drawing.registry Drawing.heap Drawing.name Drawing.first) ∧
      ∃ m, Reaches ⟨Drawing.registry, Drawing.heap, #[Drawing.square]⟩ ⟨Drawing.registry, m⟩ ∧
        m.heap = { objects := #[[.ref (.string "second"), .struct Drawing.point [.int32 0]]] } := by
  have typed : Drawing.registry.Typed := Registry.typed_of_forall (by decide)
  have reached : Reaches {} ⟨Drawing.registry, {}⟩ :=
    reaches_of_definitions {} (Registry.reaches_of_replay Drawing.replay_edits) typed
  have later := Drawing.reaches_heap
  have isClass : Drawing.square.isClass = true := rfl
  have finished := Drawing.finished_square
  obtain ⟨instances, _, covers⟩ := heap_typed reached later isClass finished
  obtain ⟨slots, found, length, _, accessible⟩ := instances 0 (Nat.le_refl 0) rfl
  have sound := (sound_of_reaches reached).registry
  have built := Drawing.host_built.bodiesWithin sound 1
  have legal : (Operation.invoke Drawing.rename Drawing.first #[.string "second"]).Legal
      Drawing.registry #[Drawing.square] :=
    ⟨rfl, fun v mem => by simp_all [Value.Genuine]⟩
  obtain ⟨m, reaches, left, _⟩ := covers _ built _ legal
  refine ⟨reached, later, isClass, finished, built, ⟨slots, found, length, ?_⟩, m, reaches,
    left.symm.trans (by rfl)⟩
  exact accessible Drawing.name ⟨Drawing.square, 0⟩ Drawing.declares_name rfl rfl

end World

end MemberAccess
