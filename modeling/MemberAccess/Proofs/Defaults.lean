import MemberAccess.Code.Machine
import MemberAccess.Proofs.Nesting

/-!
Filling fresh locations. A location of a value type is filled by filling the slots of its layout, in
which there may be value types again. Each of these was finished before the value type that holds
it, so the nesting has an end, whatever definitions were worked on in between and however many of
them were rejected.
-/

namespace MemberAccess

namespace Registry

/-- Whether instances of value type `t` have a slot of value type `u`. -/
structure Holds (r : Registry) (t u : Ty) : Prop where
  outer : t.isStruct = true
  inner : u.isStruct = true
  slot : u ∈ r.layout t

/-- Whether filling locations of the given types one after another comes to an end, and with what. A
value type is filled with what filling the slots of its layout ends with. -/
inductive Initializes (r : Registry) : List Ty → List Slot → Prop
  | nil : Initializes r [] []
  | primitive (p : Primitive) {types : List Ty} {slots : List Slot}
      (rest : Initializes r types slots) :
      Initializes r (.primitive p :: types) (p.initial :: slots)
  | struct {id : TypeId} {fields : List Slot} {types : List Ty} {slots : List Slot}
      (within : Initializes r (r.layout (.structType id)) fields)
      (rest : Initializes r types slots) :
      Initializes r (.structType id :: types) (.struct (.structType id) fields :: slots)
  | null {t : Ty} (noValueType : t.isValueType = false) {types : List Ty} {slots : List Slot}
      (rest : Initializes r types slots) : Initializes r (t :: types) (.null :: slots)

namespace Initializes

variable {r : Registry} {types : List Ty} {slots slots' : List Slot}

theorem unique (first : r.Initializes types slots) (second : r.Initializes types slots') :
    slots' = slots := by
  induction first generalizing slots' with
  | nil =>
    cases second
    rfl
  | primitive p rest ih =>
    cases second with
    | primitive _ rest' => rw [ih rest']
    | null noValueType rest' => cases noValueType
  | struct within rest ihWithin ih =>
    cases second with
    | struct within' rest' => rw [ihWithin within', ih rest']
    | null noValueType rest' => cases noValueType
  | null noValueType rest ih =>
    cases second with
    | primitive _ rest' => cases noValueType
    | struct within' rest' => cases noValueType
    | null _ rest' => rw [ih rest']

/-- A list of locations is filled one by one. -/
theorem of_each {initial : Ty → Slot} (each : ∀ t ∈ types, ∀ {types : List Ty} {slots : List Slot},
    r.Initializes types slots → r.Initializes (t :: types) (initial t :: slots)) :
    r.Initializes types (types.map initial) := by
  induction types with
  | nil => exact .nil
  | cons t rest ih =>
    exact each t List.mem_cons_self (ih fun u mem => each u (List.mem_cons_of_mem t mem))

end Initializes

theorem initial_of_layout_eq_nil {r : Registry} {id : TypeId}
    (empty : r.layout (.structType id) = []) (depth : Nat) :
    r.initialWithin depth (.structType id) = .struct (.structType id) [] := by
  cases depth with
  | zero => rfl
  | succ depth => rw [initialWithin, empty, List.map_nil]

namespace NestedWithin

variable {r : Registry} {depth : Nat} {t : Ty}

theorem initializes (nested : r.NestedWithin depth t) {types : List Ty} {slots : List Slot}
    (rest : r.Initializes types slots) :
    r.Initializes (t :: types) (r.initialWithin depth t :: slots) := by
  induction nested generalizing types slots with
  | @flat depth t flat =>
    cases t with
    | structType id => cases flat
    | primitive p => cases depth <;> exact .primitive p rest
    | _ => cases depth <;> exact .null rfl rest
  | struct finished each ih =>
    rw [initialWithin]
    exact .struct (.of_each fun u mem => ih u mem) rest

/-- What a value type holds is nested less deep than the value type itself. -/
theorem acc (nested : r.NestedWithin depth t) : Acc (fun u t => r.Holds t u) t := by
  induction nested with
  | flat depth flat =>
    refine .intro _ fun u holds => ?_
    rw [holds.outer] at flat
    cases flat
  | struct finished each ih => exact .intro _ fun u holds => ih u holds.slot

end NestedWithin

namespace Nests

variable {r : Registry} (nests : r.Nests)

include nests

/-- A type that is there and not finished has an empty layout, so its default is found at once. -/
theorem initializes_cons {t : Ty} (known : r.knows t = true) {types : List Ty} {slots : List Slot}
    (rest : r.Initializes types slots) :
    r.Initializes (t :: types) (r.initial t :: slots) := by
  by_cases settled : t.isStruct = true → r.isFinished t = true
  · have nested : r.NestedWithin r.types.size t := by
      by_cases struct : t.isStruct = true
      · exact (nests.nested t struct ⟨known, settled struct⟩).mono r.card_finishedIds_le
      · exact .flat _ (Bool.eq_false_iff.mpr struct)
    exact nested.initializes rest
  · obtain ⟨struct, unfinished⟩ := Classical.not_imp.mp settled
    have empty := layout_of_not_finished unfinished
    cases t with
    | structType id =>
      have within : r.Initializes (r.layout (.structType id)) [] := by
        rw [empty]
        exact .nil
      rw [initial, initial_of_layout_eq_nil empty]
      exact .struct within rest
    | _ => cases struct

theorem initializes_iff {types : List Ty} (known : ∀ t ∈ types, r.knows t = true)
    {slots : List Slot} : r.Initializes types slots ↔ slots = types.map r.initial := by
  have ends : r.Initializes types (types.map r.initial) :=
    .of_each fun t mem => nests.initializes_cons (known t mem)
  constructor
  · exact ends.unique
  · rintro rfl
    exact ends

theorem wellFounded_holds : WellFounded fun u t => r.Holds t u := by
  have acc {t : Ty} (known : r.knows t = true) : Acc (fun u t => r.Holds t u) t := by
    refine .intro t fun u holds => ?_
    by_cases isFinished : r.isFinished t = true
    · exact (nests.nested t holds.outer ⟨known, isFinished⟩).acc.inv holds
    · have slot := holds.slot
      rw [layout_of_not_finished isFinished] at slot
      cases slot
  exact ⟨fun t => .intro t fun u holds => acc (nests.closed.layout holds.slot)⟩

end Nests

/-- When a value type gets finished, what it holds is finished already. -/
theorem Change.isFinished_of_holds {r r' : Registry} (change : r.Change r') (sound : r.Sound)
    {t u : Ty} (finished : r'.Finished t) (unfinished : r.isFinished t = false)
    (holds : r'.Holds t u) : r.isFinished u = true := by
  rcases change.finished_or finished with old | ⟨x, known, opened, accepted, rfl⟩
  · rw [old.2] at unfinished
    cases unfinished
  · have slot := holds.slot
    rw [layout_setDefinition opened] at slot
    exact sound.isFinished_of_accepted holds.outer known opened accepted slot holds.inner

/-- At some point of every history, what a value type holds was finished and it itself was not. -/
theorem exists_split_of_holds {r r' : Registry} {edits : List Edit} (reached : Reaches {} r)
    (replayed : r.replay edits = some r') {t u : Ty} (unfinished : r.isFinished t = false)
    (known : r'.knows t = true) (holds : r'.Holds t u) :
    ∃ front back r₀, edits = front ++ back ∧ r.replay front = some r₀ ∧
      r₀.isFinished t = false ∧ r₀.isFinished u = true := by
  induction edits generalizing r with
  | nil =>
    cases replayed
    have slot := holds.slot
    rw [layout_of_not_finished (Bool.eq_false_iff.mp unfinished)] at slot
    cases slot
  | cons e rest ih =>
    obtain ⟨⟨mentions, allows⟩, replayed⟩ := replay_cons_eq_some.mp replayed
    cases now : (e.apply r).isFinished t with
    | false =>
      obtain ⟨front, back, r₀, rfl, before, outer, inner⟩ :=
        ih (reached.apply mentions) replayed now
      have allows : e.Allows r front :=
        fun rejected l mem => allows rejected l (List.mem_append_left back mem)
      exact ⟨e :: front, back, r₀, rfl, replay_cons_eq_some.mpr ⟨⟨mentions, allows⟩, before⟩,
        outer, inner⟩
    | true =>
      have grows := (reaches_of_replay replayed).grows
      have finished := grows.finished_of_knows now known
      have slot := holds.slot
      rw [grows.layout now] at slot
      exact ⟨[], e :: rest, r, rfl, rfl, unfinished,
        (Edit.change mentions).isFinished_of_holds (sound_of_reaches reached) finished unfinished
          ⟨holds.outer, holds.inner, slot⟩⟩

/-- Whatever definitions are worked on, and however many of them are rejected: a value type that is
held by another one was finished before that, so no value type holds itself at any depth. Filling
locations of types that are there, finished or not, therefore always ends, with their defaults, and
with nothing else. So it does for the slots of a new instance, the cell of a static field and the
locals of a routine. -/
theorem initialization_ends {edits : List Edit} {r : Registry}
    (replayed : replay {} edits = some r) :
    (∀ t u, r.knows t = true → r.Holds t u →
      ∃ front back r₀, edits = front ++ back ∧ replay {} front = some r₀ ∧
        r₀.isFinished t = false ∧ r₀.isFinished u = true) ∧
    (WellFounded fun u t => r.Holds t u) ∧
    (∀ t, r.knows t = true → ∀ s, r.Initializes [t] [s] ↔ s = r.initial t) ∧
    (∀ t slots, r.Initializes (r.layout t) slots ↔ slots = r.initialSlots t) ∧
    (∀ (f : Field) (h : Heap), r.knows f.type = true → h.static? f = none →
      ∀ s, r.Initializes [f.type] [s] ↔ s = (h.readStatic r f).1) ∧
    ∀ f : Code.Routine, (∀ t ∈ f.body.locals, r.knows t = true) →
      ∀ slots, r.Initializes f.body.locals.toList slots ↔ slots = (f.start r).locals.toList := by
  have nests := nests_of_reaches (reaches_of_replay replayed)
  have single {t : Ty} (known : r.knows t = true) (s : Slot) :
      r.Initializes [t] [s] ↔ s = r.initial t := by
    have each : ∀ u ∈ [t], r.knows u = true := fun u mem => List.mem_singleton.mp mem ▸ known
    rw [nests.initializes_iff each, List.map_singleton, List.singleton_inj]
  have none (t : Ty) : ({} : Registry).isFinished t = false := by
    simp [isFinished, members?, decl?]
  refine ⟨fun t u known holds => exists_split_of_holds .refl replayed (none t) known holds,
    nests.wellFounded_holds, fun t known => single known, fun t slots => ?slots,
    fun f h known fresh s => ?cell, fun f known slots => ?locals⟩
  case slots => exact nests.initializes_iff fun u mem => nests.closed.layout mem
  case cell =>
    rw [single known, Heap.readStatic, fresh]
  case locals =>
    have each : ∀ t ∈ f.body.locals.toList, r.knows t = true :=
      fun t mem => known t (Array.mem_toList_iff.mp mem)
    rw [nests.initializes_iff each, Code.Routine.start, Array.toList_map]

end Registry

/-! A segment has two points, and it can be finished once points are. A loop that would hold itself
is rejected, and stays unfinished. -/

namespace Outline

def point : Ty := .structType 0
def segment : Ty := .structType 1
def canvas : Ty := .classType 2
def loop : Ty := .structType 3

def x : Field := ⟨point, 0, "X", .int32, false, false, .slot 0⟩
def start : Field := ⟨segment, 0, "Start", point, false, false, .slot 0⟩
def stop : Field := ⟨segment, 1, "Stop", point, false, false, .slot 1⟩
def unit : Field := ⟨segment, 2, "Unit", segment, false, false, .static⟩
def line : Field := ⟨canvas, 0, "Line", segment, false, false, .slot 0⟩
def next : Field := ⟨canvas, 1, "Next", canvas, false, false, .slot 1⟩
def inner : Field := ⟨loop, 0, "Inner", loop, false, false, .slot 0⟩

def edits : List Edit :=
  [.startStruct "Point", .startStruct "Segment", .addField segment "Start" point {},
    .addField point "X" .int32 {}, .finish point, .addField segment "Stop" point {},
    .addField segment "Unit" segment { isStatic := true }, .startClass "Canvas",
    .addField canvas "Line" segment {}, .addField canvas "Next" canvas {}, .startStruct "Loop",
    .addField loop "Inner" loop {}, .finish loop, .finish canvas, .finish segment]

def registry : Registry :=
  { types := #[
      ⟨"Point", [], .finished (Draft.members { fields := [x], layout := [.int32] })⟩,
      ⟨"Segment", [], .finished (Draft.members
        { fields := [start, stop, unit], layout := [point, point] })⟩,
      ⟨"Canvas", [.object], .finished (Draft.members
        { fields := [line, next], layout := [segment, canvas] })⟩,
      ⟨"Loop", [], .draft { fields := [inner], layout := [loop] }⟩] }

theorem replay_edits : Registry.replay {} edits = some registry := by rfl

def origin : Slot := .struct point [.int32 0]

end Outline

/-- A canvas starts with a segment from origin to origin, and a loop with nothing at all. -/
theorem Registry.initialization_ends_outline :
    replay {} Outline.edits = some Outline.registry ∧
      (∃ front back r₀, Outline.edits = front ++ back ∧ replay {} front = some r₀ ∧
        r₀.isFinished Outline.segment = false ∧ r₀.isFinished Outline.point = true) ∧
      (WellFounded fun u t => Outline.registry.Holds t u) ∧
      Outline.registry.Initializes (Outline.registry.layout Outline.canvas)
        [.struct Outline.segment [Outline.origin, Outline.origin], .null] ∧
      Outline.registry.Initializes [Outline.loop] [.struct Outline.loop []] ∧
      Outline.registry.Initializes [Outline.segment]
        [.struct Outline.segment [Outline.origin, Outline.origin]] := by
  obtain ⟨order, wellFounded, single, slots, cells, _⟩ :=
    initialization_ends Outline.replay_edits
  have holds : Outline.registry.Holds Outline.segment Outline.point := ⟨rfl, rfl, by decide⟩
  refine ⟨Outline.replay_edits, order _ _ (by decide) holds, wellFounded, (slots _ _).mpr rfl,
    (single Outline.loop (by decide) _).mpr rfl, ?_⟩
  exact (cells Outline.unit {} (by decide) rfl _).mpr rfl

end MemberAccess
