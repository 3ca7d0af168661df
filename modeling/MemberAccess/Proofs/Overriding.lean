import MemberAccess.Proofs.CallAgreement
import MemberAccess.Proofs.Lineages

/-!
Which override is the most-derived one. The walk up from the runtime type stops at the first type
that overrides the method, so nothing further down does; and it stops at the same method if it is
asked for an override on the way instead.
-/

namespace MemberAccess

/-- Whether `m` has what it takes to be called in the place of `base`. -/
structure Method.Replaces (m base : Method) : Prop where
  isVirtual : m.isVirtual = true
  isInstance : m.isStatic = false
  name : m.name = base.name
  returns : m.returns = base.returns
  params : m.params.map Param.type = base.params.map Param.type

namespace Method

theorem overrides_iff_replaces {m base : Method} : m.overrides base = true ↔ m.Replaces base := by
  rw [overrides_iff]
  constructor
  · rintro ⟨isVirtual, isInstance, name, returns, params⟩
    exact ⟨isVirtual, isInstance, name, returns, params⟩
  · rintro ⟨isVirtual, isInstance, name, returns, params⟩
    exact ⟨isVirtual, isInstance, name, returns, params⟩

/-- An override is overridden by what overrides the method in whose place it stands. -/
theorem overrides_of_replaces {m base : Method} (replaces : m.Replaces base) (o : Method) :
    o.overrides m = o.overrides base := by
  rw [Bool.eq_iff_iff, overrides_iff, overrides_iff, replaces.name, replaces.returns,
    replaces.params]

end Method

namespace Registry

variable {r : Registry}

/-- Whether every method is declared by the type that has it, finished or not. -/
def Owns (r : Registry) : Prop :=
  ∀ (id : TypeId) (d : TypeDecl), r.types[id]? = some d → ∀ m ∈ d.methods, m.declaring = d.typeAt id

namespace Owns

variable (owns : r.Owns)

include owns

theorem setDefinition {t : Ty} {x : Draft} {y : Definition} (known : r.knows t = true)
    (opened : r.draft? t = some x)
    (adds : ∀ d : TypeDecl, ∀ m ∈ TypeDecl.methods { d with definition := y },
      m ∈ x.methods ∨ m.declaring = t) : (r.setDefinition t y).Owns := by
  intro id e found m mem
  rcases of_getElem?_setDefinition known opened found with
    kept | ⟨d, declared, rfl, definition, rfl⟩
  · exact owns id e kept m mem
  · rcases adds d m mem with old | own
    · refine owns id d declared m ?_
      rw [TypeDecl.methods, definition]
      exact old
    · exact own

theorem addDecl {d : TypeDecl} (none : d.methods = []) : (r.addDecl d).Owns := by
  intro id e found m mem
  rcases of_getElem?_addDecl found with kept | ⟨rfl, rfl⟩
  · exact owns id e kept m mem
  · rw [none] at mem
    cases mem

theorem change {r' : Registry} (change : r.Change r') : r'.Owns := by
  cases change with
  | none => exact owns
  | startDerived name base known => exact owns.addDecl rfl
  | startStruct name => exact owns.addDecl rfl
  | add t x y known opened adds slots =>
    exact owns.setDefinition known opened fun d m mem => adds.declaring_of_mem mem
  | finish t x known opened accepted =>
    exact owns.setDefinition known opened fun d m mem => .inl mem

theorem declaring_of_mem {t : Ty} (known : r.knows t = true) {m : Method}
    (mem : m ∈ r.methods t) : m.declaring = t := by
  rcases knows_iff.mp known with builtIn | ⟨id, d, found, rfl⟩
  · simp [methods, members, members?, decl?, builtIn] at mem
  · refine owns id d found m ?_
    rw [methods, members, members?, decl?_typeAt found, Option.bind_some] at mem
    cases finished : d.members? with
    | none =>
      rw [finished] at mem
      cases mem
    | some table =>
      rw [finished] at mem
      rw [TypeDecl.methods, TypeDecl.members?_eq_some.mp finished]
      exact mem

end Owns

theorem owns_of_reaches (reached : Reaches {} r) : r.Owns := by
  induction reached with
  | refl => exact fun id d found => by cases found
  | edit reached e legal ih => exact ih.change (Edit.change legal.known)

/-- The method of `t` that is called in the place of `m`. -/
def override? (r : Registry) (m : Method) (t : Ty) : Option Method :=
  (r.methods t).find? (·.overrides m)

theorem override?_eq_none {m : Method} {t : Ty} :
    r.override? m t = none ↔ ∀ k ∈ r.methods t, ¬ k.Replaces m := by
  simp only [override?, List.find?_eq_none, Method.overrides_iff_replaces]

theorem override?_eq_some {m o : Method} {t : Ty} :
    r.override? m t = some o ↔ o.Replaces m ∧
      ∃ before after, r.methods t = before ++ o :: after ∧ ∀ k ∈ before, ¬ k.Replaces m := by
  simp only [override?, List.find?_eq_some_iff_append, ← Method.overrides_iff_replaces,
    Bool.not_eq_true', Bool.not_eq_true]

theorem override?_of_replaces {m m' : Method} (replaces : m'.Replaces m) (r : Registry) :
    r.override? m' = r.override? m := by
  funext t
  unfold override?
  congr 1
  funext o
  exact Method.overrides_of_replaces replaces o

/-- Whatever ends a walk that goes past `s`, the types before the first `s` are the same. -/
theorem takeWhile_bne_of_split {l before after : List Ty} {p : Ty → Bool} {s : Ty}
    (split : l.takeWhile p = before ++ s :: after) (first : s ∉ before) :
    l.takeWhile (· != s) = before := by
  have whole : l = before ++ s :: (after ++ l.dropWhile p) := by
    rw [← List.cons_append, ← List.append_assoc, ← split, List.takeWhile_append_dropWhile]
  have others : ∀ t ∈ before, (t != s) = true := fun t mem =>
    bne_iff_ne.mpr fun same => first (same ▸ mem)
  rw [whole, List.takeWhile_append_of_pos others, List.takeWhile_cons_of_neg (by simp),
    List.append_nil]

theorem mostDerived_eq (r : Registry) (m : Method) (runtime : Ty) :
    r.mostDerived m runtime =
      (((r.chain runtime).takeWhile (· != m.declaring)).findSome? (r.override? m)).getD m := rfl

/-- A walk that is to find an override of an override goes no further than to the latter. -/
theorem mostDerived_of_override? {m m' : Method} {runtime : Ty}
    (below : m'.declaring ∈ (r.chain runtime).takeWhile (· != m.declaring))
    (overrides : r.override? m m'.declaring = some m') :
    r.mostDerived m' runtime = r.mostDerived m runtime := by
  obtain ⟨before, after, split, first⟩ := List.eq_append_cons_of_mem below
  have replaces := (override?_eq_some.mp overrides).1
  rw [mostDerived_eq, mostDerived_eq, takeWhile_bne_of_split split first, split,
    override?_of_replaces replaces, List.findSome?_append, List.findSome?_cons, overrides]
  cases before.findSome? (r.override? m) <;> rfl

/-- Whether `s` is on the way up from `runtime` and derives from `d`. -/
def Below (r : Registry) (runtime d s : Ty) : Prop :=
  s ∈ r.chain runtime ∧ d ∈ r.lineage s

/-- Whether `o` is `m` or an override of it that instances of `runtime` have, and no type further
down on the way to `runtime` declares another one. -/
structure IsMostDerived (r : Registry) (m : Method) (runtime : Ty) (o : Method) : Prop where
  origin : o = m ∨
    o.Replaces m ∧ o ∈ r.methods o.declaring ∧ r.Below runtime m.declaring o.declaring
  least : ∀ s, r.Below runtime o.declaring s → ∀ k ∈ r.methods s, ¬ k.Replaces m
  assignable : r.assignable o.declaring runtime = true

theorem assignable_of_mem_chain {t runtime : Ty} (mem : t ∈ r.chain runtime) :
    r.assignable t runtime = true := by
  rw [assignable_iff]
  rcases List.mem_cons.mp mem with same | above
  · exact .inl same
  · exact .inr (.inr above)

section

variable {m : Method} {runtime : Ty} (sound : r.Sound) (owns : r.Owns)
  (known : r.knows runtime = true) (derives : m.declaring ∈ r.chain runtime)

include sound owns known derives

/-- The walk ends at `m` if no type on the way overrides it, and else at the first that does. -/
theorem mostDerived_cases :
    (r.mostDerived m runtime = m ∧
      ∀ s, r.Below runtime m.declaring s → r.override? m s = none) ∨
    ∃ o, r.mostDerived m runtime = o ∧ r.Below runtime m.declaring o.declaring ∧
      r.override? m o.declaring = some o ∧
      ∀ s, r.Below runtime o.declaring s → r.override? m s = none := by
  have walk := r.mostDerived_eq m runtime
  cases found : ((r.chain runtime).takeWhile (· != m.declaring)).findSome? (r.override? m) with
  | none =>
    rw [found] at walk
    refine .inl ⟨walk, fun s below => ?_⟩
    exact List.findSome?_eq_none_iff.mp found s ((sound.mem_takeWhile_chain known derives).mpr below)
  | some o =>
    rw [found] at walk
    obtain ⟨before, t, after, split, overrides, earlier⟩ := List.findSome?_eq_some_iff.mp found
    have reached : t ∈ (r.chain runtime).takeWhile (· != m.declaring) := by
      rw [split]
      exact List.mem_append_right before List.mem_cons_self
    have below := (sound.mem_takeWhile_chain known derives).mp reached
    have first : t ∉ before := by
      intro mem
      rw [earlier t mem] at overrides
      cases overrides
    have declared := List.mem_of_find?_eq_some overrides
    obtain rfl := owns.declaring_of_mem (sound.knows_of_mem_chain known below.1) declared
    refine .inr ⟨o, walk, below, overrides, fun s lower => earlier s ?_⟩
    rw [← takeWhile_bne_of_split split first]
    exact (sound.mem_takeWhile_chain known below.1).mpr lower

theorem isMostDerived_mostDerived : r.IsMostDerived m runtime (r.mostDerived m runtime) := by
  rcases mostDerived_cases sound owns known derives with
    ⟨same, none⟩ | ⟨o, same, below, overrides, none⟩
  · rw [same]
    exact ⟨.inl rfl, fun s lower => override?_eq_none.mp (none s lower),
      assignable_of_mem_chain derives⟩
  · rw [same]
    have replaces := (override?_eq_some.mp overrides).1
    have declared := List.mem_of_find?_eq_some overrides
    exact ⟨.inr ⟨replaces, declared, below⟩, fun s lower => override?_eq_none.mp (none s lower),
      assignable_of_mem_chain below.1⟩

theorem mostDerived_mostDerived :
    r.mostDerived (r.mostDerived m runtime) runtime = r.mostDerived m runtime := by
  rcases mostDerived_cases sound owns known derives with
    ⟨same, none⟩ | ⟨o, same, below, overrides, none⟩
  · rw [same, same]
  · have reached := (sound.mem_takeWhile_chain known derives).mpr below
    have coherent := mostDerived_of_override? reached overrides
    rwa [← same] at coherent

end

/-- On instances of a type that derives from the declaring type, the most-derived override of a
method is the method itself or a virtual method of an instance with the same name, return type and
parameter types, declared further down on the base chain; the chain declares none below that one.
The type that declares it takes such instances. It is its own most-derived override, and that of
every first override that the chain declares on the way. -/
theorem mostDerived_coherent (reached : Reaches {} r) {m : Method} {runtime : Ty}
    (known : r.knows runtime = true) (derives : m.declaring ∈ r.chain runtime) :
    r.IsMostDerived m runtime (r.mostDerived m runtime) ∧
      r.mostDerived (r.mostDerived m runtime) runtime = r.mostDerived m runtime ∧
      ∀ s before m' after, r.Below runtime m.declaring s → r.methods s = before ++ m' :: after →
        m'.Replaces m → (∀ k ∈ before, ¬ k.Replaces m) →
        r.mostDerived m' runtime = r.mostDerived m runtime := by
  have sound := sound_of_reaches reached
  have owns := owns_of_reaches reached
  refine ⟨isMostDerived_mostDerived sound owns known derives,
    mostDerived_mostDerived sound owns known derives,
    fun s before m' after below split replaces earlier => ?_⟩
  have declared : m' ∈ r.methods s := by
    rw [split]
    exact List.mem_append_right before List.mem_cons_self
  obtain rfl := owns.declaring_of_mem (sound.knows_of_mem_chain known below.1) declared
  have overrides := override?_eq_some.mpr ⟨replaces, before, after, split, earlier⟩
  exact mostDerived_of_override? ((sound.mem_takeWhile_chain known derives).mpr below) overrides

end Registry

/-! Figures have an area. Squares declare it three times, once as a static method, and tiles declare
one of another type. -/

namespace Figure

def figure : Ty := .classType 0
def square : Ty := .classType 1
def tile : Ty := .classType 2
def stone : Ty := .classType 3

def overriding : Flags := { isPublic := true, isVirtual := true }

def area (declaring : Ty) (ordinal : Nat) : Method :=
  ⟨declaring, ordinal, "Area", [], .int32, overriding⟩

def unitArea : Method :=
  { area square 0 with flags := { isPublic := true, isStatic := true, isVirtual := true } }

def edits : List Edit :=
  [.startClass "Figure", .addMethod figure "Area" [] .int32 overriding, .finish figure,
    .startDerived "Square" figure,
    .addMethod square "Area" [] .int32 unitArea.flags,
    .addMethod square "Area" [] .int32 overriding, .addMethod square "Area" [] .int32 overriding,
    .finish square,
    .startDerived "Tile" square, .addMethod tile "Area" [] .int64 overriding, .finish tile,
    .startDerived "Stone" tile, .addMethod stone "Area" [] .int32 overriding, .finish stone]

def registry : Registry :=
  { types := #[
      ⟨"Figure", [.object], .finished (Draft.members { methods := [area figure 0] })⟩,
      ⟨"Square", [figure, .object],
        .finished (Draft.members { methods := [unitArea, area square 1, area square 2] })⟩,
      ⟨"Tile", [square, figure, .object],
        .finished (Draft.members { methods := [{ area tile 0 with returns := .int64 }] })⟩,
      ⟨"Stone", [tile, square, figure, .object],
        .finished (Draft.members { methods := [area stone 0] })⟩] }

theorem replay_edits : Registry.replay {} edits = some registry := by rfl

end Figure

namespace Registry

open Figure

/-- Tiles have the area of squares, stones their own, also if the area of squares is asked for. The
area that squares declare last is overridden by none on the way to tiles. -/
theorem mostDerived_figure :
    Reaches {} registry ∧
      (registry.knows tile = true ∧ (area figure 0).declaring ∈ registry.chain tile ∧
        registry.mostDerived (area figure 0) tile = area square 1 ∧
        registry.IsMostDerived (area figure 0) tile (area square 1) ∧
        registry.mostDerived (area square 1) tile = area square 1 ∧
        registry.mostDerived (area square 2) tile = area square 2) ∧
      registry.knows stone = true ∧ (area figure 0).declaring ∈ registry.chain stone ∧
      registry.Below stone figure square ∧
      registry.mostDerived (area figure 0) stone = area stone 0 ∧
      registry.IsMostDerived (area figure 0) stone (area stone 0) ∧
      registry.mostDerived (area square 1) stone = area stone 0 := by
  have reached := reaches_of_replay replay_edits
  have knownTile : registry.knows tile = true := by decide
  have knownStone : registry.knows stone = true := by decide
  have tiles : (area figure 0).declaring ∈ registry.chain tile := by decide
  have stones : (area figure 0).declaring ∈ registry.chain stone := by decide
  have below : registry.Below stone figure square := ⟨by decide, by decide⟩
  have tileArea : registry.mostDerived (area figure 0) tile = area square 1 := by rfl
  have stoneArea : registry.mostDerived (area figure 0) stone = area stone 0 := by rfl
  obtain ⟨selectedTile, settledTile, _⟩ := mostDerived_coherent reached knownTile tiles
  obtain ⟨selectedStone, _, coherent⟩ := mostDerived_coherent reached knownStone stones
  rw [tileArea] at selectedTile settledTile
  rw [stoneArea] at selectedStone coherent
  have replaces : (area square 1).Replaces (area figure 0) := ⟨rfl, rfl, rfl, rfl, rfl⟩
  refine ⟨reached, ⟨knownTile, tiles, tileArea, selectedTile, settledTile, by rfl⟩, knownStone,
    stones, below, stoneArea, selectedStone, ?_⟩
  apply coherent square [unitArea] (area square 1) [area square 2] below rfl replaces
  -- The first method that squares declare is static.
  intro k earlier same
  rw [List.mem_singleton.mp earlier] at same
  exact absurd same.isInstance (by decide)

end Registry

end MemberAccess
