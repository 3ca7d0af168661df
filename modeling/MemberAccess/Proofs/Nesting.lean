import Mathlib.Data.Finset.Card
import MemberAccess.Proofs.Layouts
import MemberAccess.Value

/-!
Value types within value types. A value type can only be finished when those in its slots are, so
they nest no deeper than there are finished types, and the default of a value type, whose slots hold
the defaults of their types, is found within as many steps.
-/

namespace MemberAccess

namespace Registry

/-- Whether the types of all slots are known. -/
def Closed (r : Registry) : Prop :=
  ∀ (id : TypeId) (d : TypeDecl), r.types[id]? = some d → ∀ t ∈ d.layout, r.knows t = true

theorem finished_of_decl {r : Registry} {id : TypeId} {d : TypeDecl} {m : Members}
    (found : r.types[id]? = some d) (definition : d.definition = .finished m) :
    r.Finished (d.typeAt id) := by
  refine ⟨knows_iff.mpr (.inr ⟨id, d, found, rfl⟩), ?_⟩
  rw [isFinished, members?, decl?_typeAt found, Option.bind_some, TypeDecl.members?, definition]
  rfl

theorem Grows.finished {r r' : Registry} (grows : r.Grows r') {t : Ty} (finished : r.Finished t) :
    r'.Finished t :=
  ⟨grows.knows finished.1, grows.isFinished finished.2⟩

/-- A type that is finished and known later was known already. -/
theorem Grows.finished_of_knows {r r' : Registry} (grows : r.Grows r') {t : Ty}
    (isFinished : r.isFinished t = true) (known : r'.knows t = true) : r.Finished t := by
  refine ⟨?_, isFinished⟩
  obtain ⟨m, table⟩ := Option.isSome_iff_exists.mp isFinished
  obtain ⟨d, declared, _⟩ := Option.bind_eq_some_iff.mp table
  obtain ⟨id, isId, found⟩ := Option.bind_eq_some_iff.mp declared
  obtain ⟨d', found', grown⟩ := grows id d found
  rcases knows_iff.mp known with builtIn | ⟨i, e, found'', rfl⟩
  · rw [builtIn] at isId
    cases isId
  · rw [e.id?_typeAt] at isId
    cases isId
    rw [found'] at found''
    cases found''
    rw [grown.typeAt]
    exact knows_iff.mpr (.inr ⟨id, d, found, rfl⟩)

namespace Closed

variable {r : Registry} (closed : r.Closed)

include closed

theorem layout {t u : Ty} (mem : u ∈ r.layout t) : r.knows u = true := by
  unfold Registry.layout Registry.members at mem
  cases table : r.members? t with
  | none =>
    rw [table] at mem
    cases mem
  | some m =>
    rw [table] at mem
    obtain ⟨d, declared, members⟩ := Option.bind_eq_some_iff.mp table
    obtain ⟨id, _, found⟩ := Option.bind_eq_some_iff.mp declared
    refine closed id d found u ?_
    rw [TypeDecl.layout, TypeDecl.members?_eq_some.mp members]
    exact mem

theorem addDecl {d : TypeDecl} (added : ∀ t ∈ d.layout, r.knows t = true) :
    (r.addDecl d).Closed := by
  intro id e found t mem
  apply (grows_addDecl r d).knows
  rcases of_getElem?_addDecl found with kept | ⟨rfl, rfl⟩
  · exact closed id e kept t mem
  · exact added t mem

theorem setDefinition {t : Ty} {x : Draft} {y : Definition} (known : r.knows t = true)
    (opened : r.draft? t = some x) (grows : r.Grows (r.setDefinition t y))
    (redefined : ∀ d : TypeDecl, ∀ u ∈ TypeDecl.layout { d with definition := y },
      r.knows u = true) : (r.setDefinition t y).Closed := by
  intro id e found u mem
  apply grows.knows
  rcases of_getElem?_setDefinition known opened found with kept | ⟨d, _, _, _, rfl⟩
  · exact closed id e kept u mem
  · exact redefined d u mem

/-- The slots of a draft, as far as it is there. -/
theorem draft {t : Ty} {x : Draft} (opened : r.draft? t = some x) {u : Ty} (mem : u ∈ x.layout) :
    r.knows u = true := by
  obtain ⟨d, declared, drafted⟩ := Option.bind_eq_some_iff.mp opened
  obtain ⟨id, _, found⟩ := Option.bind_eq_some_iff.mp declared
  refine closed id d found u ?_
  rw [TypeDecl.layout, TypeDecl.draft?_eq_some.mp drafted]
  exact mem

theorem change {r' : Registry} (change : r.Change r') : r'.Closed := by
  have grows := change.grows
  cases change with
  | none => exact closed
  | startDerived name base known => exact closed.addDecl fun t mem => closed.layout mem
  | startStruct name => exact closed.addDecl fun t mem => absurd mem List.not_mem_nil
  | add t x y known opened adds slots =>
    refine closed.setDefinition known opened grows fun d u mem => ?_
    rcases slots u mem with old | known
    · exact closed.draft opened old
    · exact known
  | finish t x known opened accepted =>
    exact closed.setDefinition known opened grows fun d u mem => closed.draft opened mem

end Closed

theorem finished_of_addDecl {r : Registry} {d : TypeDecl} {x : Draft}
    (isDraft : d.definition = .draft x) {t : Ty} (finished : (r.addDecl d).Finished t) :
    r.Finished t := by
  obtain ⟨id, e, m, found, rfl, definition, _⟩ := finished.exists_decl
  rcases of_getElem?_addDecl found with kept | ⟨rfl, rfl⟩
  · exact finished_of_decl kept definition
  · rw [isDraft] at definition
    cases definition

theorem finished_of_setDefinition {r : Registry} {u : Ty} {x : Draft} {y : Definition}
    (known : r.knows u = true) (opened : r.draft? u = some x) {t : Ty}
    (finished : (r.setDefinition u y).Finished t) :
    r.Finished t ∨ t = u ∧ ∃ m, y = .finished m := by
  obtain ⟨id, e, m, found, rfl, definition, _⟩ := finished.exists_decl
  rcases of_getElem?_setDefinition known opened found with kept | ⟨d, _, rfl, _, rfl⟩
  · exact .inl (finished_of_decl kept definition)
  · exact .inr ⟨rfl, m, definition⟩

/-- A type gets finished by being finished, and by nothing else. -/
theorem Change.finished_or {r r' : Registry} (change : r.Change r') {t : Ty}
    (finished : r'.Finished t) :
    r.Finished t ∨
      ∃ x, r.knows t = true ∧ r.draft? t = some x ∧ r.rejection? t x = Option.none ∧
        r' = r.setDefinition t (.finished x.members) := by
  cases change with
  | none => exact .inl finished
  | startDerived name base known => exact .inl (finished_of_addDecl rfl finished)
  | startStruct name => exact .inl (finished_of_addDecl rfl finished)
  | add u x y known opened adds slots =>
    rcases finished_of_setDefinition known opened finished with old | ⟨_, _, isFinished⟩
    · exact .inl old
    · cases isFinished
  | finish u x known opened accepted =>
    rcases finished_of_setDefinition known opened finished with old | ⟨rfl, _⟩
    · exact .inl old
    · exact .inr ⟨x, known, opened, accepted, rfl⟩

/-- Whether value types are nested in `t` at most `depth` deep, all of them finished. -/
inductive NestedWithin (r : Registry) : Nat → Ty → Prop
  | flat (depth : Nat) {t : Ty} (flat : t.isStruct = false) : NestedWithin r depth t
  | struct {depth : Nat} {id : TypeId} (finished : r.Finished (.structType id))
      (each : ∀ u ∈ r.layout (.structType id), NestedWithin r depth u) :
      NestedWithin r (depth + 1) (.structType id)

namespace NestedWithin

variable {r : Registry} {depth : Nat} {t : Ty}

theorem mono (nested : r.NestedWithin depth t) {depth' : Nat} (le : depth ≤ depth') :
    r.NestedWithin depth' t := by
  induction nested generalizing depth' with
  | flat depth flat => exact .flat depth' flat
  | struct finished each ih =>
    cases depth' with
    | zero => cases le
    | succ depth' => exact .struct finished fun u mem => ih u mem (Nat.le_of_succ_le_succ le)

theorem grows {r' : Registry} (nested : r.NestedWithin depth t) (grows : r.Grows r') :
    r'.NestedWithin depth t := by
  induction nested with
  | flat depth flat => exact .flat depth flat
  | struct finished each ih =>
    refine .struct (grows.finished finished) fun u mem => ?_
    rw [grows.layout finished.2] at mem
    exact ih u mem

/-- No value type has a slot of its own type. -/
theorem not_mem_layout (nested : r.NestedWithin depth t) (struct : t.isStruct = true) :
    t ∉ r.layout t := by
  induction nested with
  | flat depth flat => exact absurd struct (Bool.eq_false_iff.mp flat)
  | struct finished each ih =>
    intro mem
    exact ih _ mem struct mem

/-- The default of a type is found within as many steps as value types are nested in it. -/
theorem initialWithin_eq (nested : r.NestedWithin depth t) {depth' : Nat} (le : depth ≤ depth') :
    r.initialWithin depth' t = r.initialWithin depth t := by
  induction nested generalizing depth' with
  | @flat depth t flat =>
    cases t with
    | structType id => cases flat
    | _ => cases depth <;> cases depth' <;> rfl
  | struct finished each ih =>
    cases depth' with
    | zero => cases le
    | succ depth' =>
      unfold initialWithin
      congr 1
      apply List.map_congr_left
      intro u mem
      exact ih u mem (Nat.le_of_succ_le_succ le)

end NestedWithin

/-- The positions of the finished types. -/
def finishedIds (r : Registry) : Finset TypeId :=
  (Finset.range r.types.size).filter fun id => (r.types[id]?.bind TypeDecl.members?).isSome

theorem mem_finishedIds {r : Registry} {id : TypeId} :
    id ∈ r.finishedIds ↔ ∃ d, r.types[id]? = some d ∧ d.members?.isSome = true := by
  unfold finishedIds
  rw [Finset.mem_filter, Finset.mem_range]
  constructor
  · rintro ⟨_, isFinished⟩
    obtain ⟨m, table⟩ := Option.isSome_iff_exists.mp isFinished
    obtain ⟨d, found, members⟩ := Option.bind_eq_some_iff.mp table
    exact ⟨d, found, Option.isSome_iff_exists.mpr ⟨m, members⟩⟩
  · rintro ⟨d, found, isFinished⟩
    obtain ⟨bound, _⟩ := Array.getElem?_eq_some_iff.mp found
    exact ⟨bound, by rw [found]; exact isFinished⟩

theorem card_finishedIds_le (r : Registry) : r.finishedIds.card ≤ r.types.size := by
  have bound := Finset.card_filter_le (Finset.range r.types.size)
    fun id => (r.types[id]?.bind TypeDecl.members?).isSome
  rwa [Finset.card_range] at bound

theorem Grows.finishedIds {r r' : Registry} (grows : r.Grows r') :
    r.finishedIds ⊆ r'.finishedIds := by
  intro id mem
  obtain ⟨d, found, isFinished⟩ := mem_finishedIds.mp mem
  obtain ⟨d', found', grown⟩ := grows id d found
  obtain ⟨m, members⟩ := Option.isSome_iff_exists.mp isFinished
  exact mem_finishedIds.mpr ⟨d', found', Option.isSome_iff_exists.mpr ⟨m, grown.members? m members⟩⟩

theorem lineage_of_isStruct {r : Registry} {t : Ty} (struct : t.isStruct = true)
    (known : r.knows t = true) : r.lineage t = [] := by
  rcases knows_iff.mp known with builtIn | ⟨id, d, found, rfl⟩
  · rw [lineage, decl?, builtIn]
    rfl
  · rw [lineage_typeAt found]
    unfold TypeDecl.typeAt at struct
    split at struct
    · next empty => exact List.isEmpty_iff.mp empty
    · cases struct

/-- The slots of a draft of a value type belong to its instance fields. -/
theorem Sound.exists_field_of_mem {r : Registry} (sound : r.Sound) {t : Ty} {x : Draft}
    (struct : t.isStruct = true) (known : r.knows t = true) (opened : r.draft? t = some x) {u : Ty}
    (mem : u ∈ x.layout) : ∃ f ∈ x.fields, f.isStatic = false ∧ f.type = u := by
  have noBase := lineage_of_isStruct struct known
  obtain ⟨id, d, found, rfl, definition⟩ := exists_of_draft? known opened
  rw [lineage_typeAt found] at noBase
  have founded : d.Founded := by
    intro base derived
    rw [noBase] at derived
    cases derived
  have laid := (sound id d found).laidOut founded
  rw [TypeDecl.fields, TypeDecl.layout, TypeDecl.inherited, definition, noBase] at laid
  obtain ⟨i, found'⟩ := List.getElem?_of_mem mem
  have cell : (u, i) ∈ x.layout.zipIdx := List.mem_zipIdx_iff_getElem?.mpr found'
  rw [laid.cells] at cell
  obtain ⟨f, declared, same⟩ := List.mem_filterMap.mp cell
  obtain ⟨j, slot, pair⟩ := Option.map_eq_some_iff.mp same
  have storage := Field.slotIndex?_eq_some.mp slot
  exact ⟨f, declared, Field.isStatic_of_slot storage, (Prod.mk.inj pair).1⟩

/-- What a value type that may be finished holds in its slots is finished, as far as it is a value
type itself. -/
theorem Sound.isFinished_of_accepted {r : Registry} (sound : r.Sound) {t : Ty} {x : Draft}
    (struct : t.isStruct = true) (known : r.knows t = true) (opened : r.draft? t = some x)
    (accepted : r.rejection? t x = none) {u : Ty} (mem : u ∈ x.layout)
    (nested : u.isStruct = true) : r.isFinished u = true := by
  obtain ⟨f, declared, isInstance, rfl⟩ := sound.exists_field_of_mem struct known opened mem
  have noBase : r.base? t = none := by rw [base?, lineage_of_isStruct struct known, List.head?_nil]
  rw [rejection?, noBase, Option.map_eq_none_iff, List.find?_eq_none] at accepted
  have closed := accepted f declared
  simpa [opensCycle, isInstance, nested] using closed

theorem layout_of_not_finished {r : Registry} {t : Ty} (unfinished : ¬ r.isFinished t = true) :
    r.layout t = [] := by
  rw [isFinished, Bool.not_eq_true, Option.isSome_eq_false_iff, Option.isNone_iff_eq_none]
    at unfinished
  rw [layout, members, unfinished]
  rfl

theorem layout_setDefinition {r : Registry} {t : Ty} {x : Draft} (opened : r.draft? t = some x)
    (m : Members) : (r.setDefinition t (.finished m)).layout t = m.layout := by
  rw [layout, members, members?_setDefinition opened]
  rfl

theorem card_finishedIds_lt {r : Registry} {t : Ty} {x : Draft} (known : r.knows t = true)
    (opened : r.draft? t = some x) {m : Members}
    (grows : r.Grows (r.setDefinition t (.finished m))) :
    r.finishedIds.card < (r.setDefinition t (.finished m)).finishedIds.card := by
  obtain ⟨id, d, found, rfl, definition⟩ := exists_of_draft? known opened
  apply Finset.card_lt_card
  rw [Finset.ssubset_iff_of_subset grows.finishedIds]
  refine ⟨id, mem_finishedIds.mpr ⟨{ d with definition := .finished m }, ?_, rfl⟩, fun mem => ?_⟩
  · rw [getElem?_setDefinition (d.id?_typeAt id), if_pos rfl, found]
    rfl
  · obtain ⟨d', found', isFinished⟩ := mem_finishedIds.mp mem
    rw [found] at found'
    cases found'
    rw [TypeDecl.members?, definition] at isFinished
    cases isFinished

/-- What holds of the slots of finished types in every registry that definitions lead to. -/
structure Nests (r : Registry) : Prop where
  closed : r.Closed
  nested : ∀ t, t.isStruct = true → r.Finished t → r.NestedWithin r.finishedIds.card t

theorem Nests.change {r r' : Registry} (nests : r.Nests) (sound : r.Sound)
    (change : r.Change r') : r'.Nests := by
  have grows := change.grows
  refine ⟨nests.closed.change change, fun t struct finished => ?_⟩
  rcases change.finished_or finished with old | ⟨x, known, opened, accepted, rfl⟩
  · have count := Finset.card_le_card grows.finishedIds
    exact ((nests.nested t struct old).mono count).grows grows
  · have each : ∀ u ∈ (r.setDefinition t (.finished x.members)).layout t,
        (r.setDefinition t (.finished x.members)).NestedWithin r.finishedIds.card u := by
      intro u mem
      rw [layout_setDefinition opened] at mem
      by_cases nested : u.isStruct = true
      · have isFinished := sound.isFinished_of_accepted struct known opened accepted mem nested
        exact (nests.nested u nested ⟨nests.closed.draft opened mem, isFinished⟩).grows grows
      · exact .flat _ (Bool.eq_false_iff.mpr nested)
    -- There is one more finished type than before.
    have count := card_finishedIds_lt known opened grows
    cases t with
    | structType id => exact (NestedWithin.struct finished each).mono count
    | _ => cases struct

theorem nests_of_reaches {r : Registry} (reached : Reaches {} r) : r.Nests := by
  induction reached with
  | refl =>
    refine ⟨fun id d found => (by cases found), fun t struct finished => ?_⟩
    obtain ⟨id, d, m, found, _⟩ := finished.exists_decl
    cases found
  | edit reached e legal ih => exact ih.change (sound_of_reaches reached) (Edit.change legal.known)

/-- A value type starts with the defaults of the types of its slots. -/
theorem Nests.initial_structType {r : Registry} (nests : r.Nests) {id : TypeId}
    (known : r.knows (.structType id) = true) :
    r.initial (.structType id) = r.initialStruct (.structType id) := by
  unfold initialStruct initialSlots initial
  by_cases isFinished : r.isFinished (.structType id) = true
  · have nested := nests.nested _ rfl ⟨known, isFinished⟩
    have count := r.card_finishedIds_le
    rw [nested.initialWithin_eq count]
    generalize r.finishedIds.card = depth at nested count
    cases nested with
    | flat depth flat => cases flat
    | @struct depth id finished each =>
      rw [initialWithin]
      congr 1
      apply List.map_congr_left
      intro u mem
      exact ((each u mem).initialWithin_eq (Nat.le_of_succ_le count)).symm
  · rw [layout_of_not_finished isFinished]
    cases r.types.size with
    | zero => rfl
    | succ size => rw [initialWithin, layout_of_not_finished isFinished, List.map_nil, List.map_nil]

end Registry

end MemberAccess
