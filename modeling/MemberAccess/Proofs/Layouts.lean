import MemberAccess.Proofs.Definitions

/-!
Slots of finished types. A derived class copies the slots of its base when its definition begins,
which may be long before either of the two is finished; still, in whatever order definitions are
worked on, every finished type has the slots of its base first and then one for each instance field
of its own.
-/

namespace MemberAccess

/-- The slot of an instance field: the type that it holds, at its position. -/
def Field.cell? (f : Field) : Option (Ty × Nat) :=
  f.slotIndex?.map fun i => (f.type, i)

theorem Field.map_snd_cells (fields : List Field) :
    (fields.filterMap Field.cell?).map Prod.snd = fields.filterMap Field.slotIndex? := by
  rw [List.map_filterMap]
  congr 1
  funext f
  simp [Field.cell?, Function.comp_def]

/-- A field whose slot is one of those of a layout finds its type there. -/
theorem Field.type_of_cells {fields : List Field} {layout : List Ty}
    (cells : ∀ c ∈ fields.filterMap Field.cell?, c ∈ layout.zipIdx) {f : Field} (mem : f ∈ fields)
    {i : Nat} (slot : f.slotIndex? = some i) : layout[i]? = some f.type := by
  have cell : f.cell? = some (f.type, i) := by simp [Field.cell?, slot]
  exact List.mem_zipIdx_iff_getElem?.mp (cells _ (List.mem_filterMap.mpr ⟨f, mem, cell⟩))

/-- Where no slot index comes twice, a slot index belongs to one field. -/
theorem Field.eq_of_slotIndex? {fields : List Field}
    (distinct : (fields.filterMap Field.slotIndex?).Nodup) {f g : Field} (first : f ∈ fields)
    (second : g ∈ fields) {i : Nat} (slot : f.slotIndex? = some i)
    (slot' : g.slotIndex? = some i) : f = g := by
  induction fields with
  | nil => cases first
  | cons h rest ih =>
    have again {k : Field} (mem : k ∈ rest) (same : k.slotIndex? = some i) :
        i ∈ rest.filterMap Field.slotIndex? :=
      List.mem_filterMap.mpr ⟨k, mem, same⟩
    rcases List.mem_cons.mp first with rfl | later <;>
      rcases List.mem_cons.mp second with rfl | later'
    · rfl
    · rw [List.filterMap_cons_some slot, List.nodup_cons] at distinct
      exact absurd (again later' slot') distinct.1
    · rw [List.filterMap_cons_some slot', List.nodup_cons] at distinct
      exact absurd (again later slot) distinct.1
    · refine ih ?_ later later'
      cases head : h.slotIndex? with
      | none => rwa [List.filterMap_cons_none head] at distinct
      | some j =>
        rw [List.filterMap_cons_some head, List.nodup_cons] at distinct
        exact distinct.2

/-- Whether `fields`, all of them declared by `t`, have the slots of `layout` that are not
inherited, in the order of declaration. -/
structure LaidOut (t : Ty) (inherited : List Ty) (fields : List Field) (layout : List Ty) :
    Prop where
  declaring : ∀ f ∈ fields, f.declaring = t
  cells : layout.zipIdx = inherited.zipIdx ++ fields.filterMap Field.cell?

namespace LaidOut

variable {t : Ty} {inherited layout : List Ty} {fields : List Field}

theorem start (t : Ty) (inherited : List Ty) : LaidOut t inherited [] inherited :=
  ⟨fun _ mem => absurd mem List.not_mem_nil, (List.append_nil _).symm⟩

theorem adds {x y : Draft} (laid : LaidOut t inherited x.fields x.layout) (adds : x.Adds t y) :
    LaidOut t inherited y.fields y.layout := by
  have declaring (f : Field) (own : f.declaring = t) : ∀ g ∈ x.fields ++ [f], g.declaring = t := by
    intro g mem
    rcases List.mem_append.mp mem with old | new
    · exact laid.declaring g old
    · rw [List.mem_singleton.mp new]
      exact own
  cases adds with
  | instanceField f own storage =>
    have cell : f.cell? = some (f.type, x.layout.length) := by
      simp [Field.cell?, Field.slotIndex?, storage]
    refine ⟨declaring f own, ?_⟩
    simp [List.zipIdx_append, laid.cells, cell]
  | staticField f own storage =>
    have cell : f.cell? = none := by simp [Field.cell?, Field.slotIndex?, storage]
    refine ⟨declaring f own, ?_⟩
    simp [laid.cells, cell]
  | other y same same' ready methods =>
    rw [same, same']
    exact laid

variable (laid : LaidOut t inherited fields layout)

include laid

theorem inherits : inherited <+: layout := by
  have types := congrArg (List.map Prod.fst) laid.cells
  rw [List.map_append, List.zipIdx_map_fst, List.zipIdx_map_fst] at types
  exact ⟨_, types.symm⟩

theorem type_of_slot {f : Field} (declared : f ∈ fields) {i : Nat} (slot : f.slotIndex? = some i) :
    layout[i]? = some f.type := by
  refine Field.type_of_cells (fun c mem => ?_) declared slot
  rw [laid.cells]
  exact List.mem_append_right _ mem

theorem slots : fields.filterMap Field.slotIndex? =
    List.range' inherited.length (layout.length - inherited.length) := by
  have positions := congrArg (List.map Prod.snd) laid.cells
  have split : List.range' 0 inherited.length ++
      List.range' (0 + inherited.length) (layout.length - inherited.length) =
        List.range' 0 layout.length := by
    rw [List.range'_append_1, Nat.add_sub_cancel' laid.inherits.length_le]
  rw [List.map_append, List.zipIdx_map_snd, List.zipIdx_map_snd, Field.map_snd_cells, ← split,
    Nat.zero_add] at positions
  exact (List.append_cancel_left positions).symm

/-- Static fields have no slot, so only the others count. -/
theorem length :
    layout.length = inherited.length + (fields.filter fun f => !f.isStatic).length := by
  have count := congrArg List.length laid.cells
  have hasCell : (fun f : Field => f.cell?.isSome) = fun f => !f.isStatic := by
    funext f
    cases storage : f.storage <;>
      simp [Field.cell?, Field.slotIndex?, Field.isStatic, storage]
  rwa [List.length_append, List.length_zipIdx, List.length_zipIdx,
    List.length_filterMap_eq_countP, hasCell, List.countP_eq_length_filter] at count

end LaidOut

namespace TypeDecl

/-- What finishing asks of the base type, if there is one: that it can be derived from, and that
its slots were known when they were copied. -/
def Founded (d : TypeDecl) : Prop :=
  ∀ base, d.lineage.head? = some base →
    (base = .object ∨ base.isClass = true) ∧ ∀ x, d.draft? = some x → x.baseReady = true

/-- The slots of the base type, if there is one. -/
def inherited (r : Registry) (d : TypeDecl) : List Ty :=
  (d.lineage.head?.map r.layout).getD []

/-- What holds of the declaration at position `id` of a registry, whether it is finished or not. -/
structure Sound (r : Registry) (id : TypeId) (d : TypeDecl) : Prop where
  chain : ∀ base, d.lineage.head? = some base → r.knows base = true ∧ d.lineage = r.chain base
  settled : d.Founded → ∀ base, d.lineage.head? = some base →
    base = .object ∨ r.isFinished base = true
  laidOut : d.Founded → LaidOut (d.typeAt id) (d.inherited r) d.fields d.layout
  founded : ∀ m, d.members? = some m → d.Founded

theorem Sound.grows {r r' : Registry} {id : TypeId} {d : TypeDecl} (sound : d.Sound r id)
    (grows : r.Grows r') : d.Sound r' id where
  chain base derived := by
    obtain ⟨known, lineage⟩ := sound.chain base derived
    exact ⟨grows.knows known, lineage.trans (grows.chain known).symm⟩
  settled founded base derived := (sound.settled founded base derived).imp_right grows.isFinished
  laidOut founded := by
    have same : d.inherited r' = d.inherited r := by
      unfold inherited
      cases derived : d.lineage.head? with
      | none => rfl
      | some base =>
        rcases sound.settled founded base derived with rfl | finished
        · rfl
        · exact congrArg (fun layout => (some layout).getD []) (grows.layout finished)
    rw [same]
    exact sound.laidOut founded
  founded := sound.founded

end TypeDecl

namespace Registry

/-- What holds of every registry that definitions lead to. -/
def Sound (r : Registry) : Prop :=
  ∀ (id : TypeId) (d : TypeDecl), r.types[id]? = some d → d.Sound r id

theorem exists_of_draft? {r : Registry} {t : Ty} {x : Draft} (known : r.knows t = true)
    (opened : r.draft? t = some x) :
    ∃ (id : TypeId) (d : TypeDecl), r.types[id]? = some d ∧ d.typeAt id = t ∧
      d.definition = .draft x := by
  obtain ⟨d, declared, drafted⟩ := Option.bind_eq_some_iff.mp opened
  rcases knows_iff.mp known with builtIn | ⟨id, e, found, rfl⟩
  · rw [decl?, builtIn] at declared
    cases declared
  · rw [decl?_typeAt found] at declared
    cases declared
    exact ⟨id, d, found, rfl, TypeDecl.draft?_eq_some.mp drafted⟩

theorem of_getElem?_addDecl {r : Registry} {d e : TypeDecl} {id : TypeId}
    (found : (r.addDecl d).types[id]? = some e) :
    r.types[id]? = some e ∨ id = r.types.size ∧ e = d := by
  by_cases last : id = r.types.size
  · subst last
    simp only [addDecl, Array.getElem?_push_size] at found
    exact .inr ⟨rfl, (Option.some.inj found).symm⟩
  · simp only [addDecl, Array.getElem?_push, if_neg last] at found
    exact .inl found

/-- Only the declaration of `t` is another one when `t` gets another definition. -/
theorem of_getElem?_setDefinition {r : Registry} {t : Ty} {x : Draft} {y : Definition}
    (known : r.knows t = true) (opened : r.draft? t = some x) {id : TypeId} {e : TypeDecl}
    (found : (r.setDefinition t y).types[id]? = some e) :
    r.types[id]? = some e ∨ ∃ d, r.types[id]? = some d ∧ d.typeAt id = t ∧
      d.definition = .draft x ∧ e = { d with definition := y } := by
  obtain ⟨i, d, declared, rfl, definition⟩ := exists_of_draft? known opened
  rw [getElem?_setDefinition (d.id?_typeAt i)] at found
  by_cases same : i = id
  · subst same
    rw [if_pos rfl, declared] at found
    exact .inr ⟨d, declared, rfl, definition, (Option.some.inj found).symm⟩
  · rw [if_neg same] at found
    exact .inl found

namespace Sound

variable {r : Registry} (sound : r.Sound)

include sound

theorem setDefinition {t : Ty} {x : Draft} {y : Definition} (known : r.knows t = true)
    (opened : r.draft? t = some x) (grows : r.Grows (r.setDefinition t y))
    (redefined : ∀ (id : TypeId) (d : TypeDecl), d.typeAt id = t → r.lineage t = d.lineage →
      d.definition = .draft x → d.Sound r id → TypeDecl.Sound r id { d with definition := y }) :
    (r.setDefinition t y).Sound := by
  intro id e found
  rcases of_getElem?_setDefinition known opened found with
    kept | ⟨d, declared, rfl, definition, rfl⟩
  · exact (sound id e kept).grows grows
  · have before := sound id d declared
    exact (redefined id d rfl (lineage_typeAt declared) definition before).grows grows

theorem addDecl {d : TypeDecl} (added : d.Sound (r.addDecl d) r.types.size) :
    (r.addDecl d).Sound := by
  intro id e found
  rcases of_getElem?_addDecl found with kept | ⟨rfl, rfl⟩
  · exact (sound id e kept).grows (grows_addDecl r d)
  · exact added

theorem startDerived (name : String) {base : Ty} (known : r.knows base = true) :
    (r.startDerived name base).1.Sound := by
  refine sound.addDecl ?_
  have grows := grows_addDecl r ⟨name, r.chain base, .draft
    { layout := r.layout base, baseReady := !base.isClass || r.isFinished base }⟩
  -- A base that can be derived from is `Object` or finished by now, so its slots are final.
  have settled (derivable : base = .object ∨ base.isClass = true)
      (ready : (!base.isClass || r.isFinished base) = true) :
      base = .object ∨ r.isFinished base = true := by
    rcases derivable with top | isClass
    · exact .inl top
    · rw [isClass] at ready
      exact .inr ready
  refine ⟨?_, ?_, ?_, fun m finished => by cases finished⟩
  · intro base' derived
    obtain rfl := Option.some.inj derived
    exact ⟨grows.knows known, (grows.chain known).symm⟩
  · intro founded base' derived
    obtain rfl := Option.some.inj derived
    obtain ⟨derivable, ready⟩ := founded base rfl
    exact (settled derivable (ready _ rfl)).imp_right grows.isFinished
  · intro founded
    obtain ⟨derivable, ready⟩ := founded base rfl
    have same : (r.startDerived name base).1.layout base = r.layout base := by
      rcases settled derivable (ready _ rfl) with rfl | finished
      · rfl
      · exact grows.layout finished
    have copied : LaidOut (.classType r.types.size) ((r.startDerived name base).1.layout base) []
        (r.layout base) := by
      rw [same]
      exact .start _ _
    exact copied

theorem startStruct (name : String) : (r.startStruct name).1.Sound := by
  refine sound.addDecl ⟨?_, ?_, fun _ => .start _ _, fun m finished => by cases finished⟩
  · exact fun base derived => by cases derived
  · exact fun _ base derived => by cases derived

end Sound

theorem founded_of_accepted {r : Registry} {t : Ty} {d : TypeDecl} {x : Draft}
    (lineage : r.lineage t = d.lineage) (definition : d.definition = .draft x)
    (accepted : r.rejection? t x = none) : d.Founded := by
  intro base derived
  rw [rejection?, base?, lineage, derived] at accepted
  by_cases derivable : (base.isClass || base = .object) = true
  · refine ⟨by simpa [or_comm] using derivable, fun y drafted => ?_⟩
    rw [TypeDecl.draft?_eq_some, definition] at drafted
    cases drafted
    by_cases ready : x.baseReady = true
    · exact ready
    · simp [derivable, ready] at accepted
  · simp [derivable] at accepted

theorem Sound.change {r r' : Registry} (sound : r.Sound) (change : r.Change r') : r'.Sound := by
  have grows := change.grows
  cases change with
  | none => exact sound
  | startDerived name base known => exact sound.startDerived name known
  | startStruct name => exact sound.startStruct name
  | add t x y known opened adds slots =>
    refine sound.setDefinition known opened grows fun id d same lineage definition before => ?_
    have ready : y.baseReady = x.baseReady := by cases adds <;> first | rfl | assumption
    have drafted := TypeDecl.draft?_eq_some.mpr definition
    have founded (now : TypeDecl.Founded { d with definition := .draft y }) : d.Founded := by
      intro base derived
      refine ⟨(now base derived).1, fun z isDraft => ?_⟩
      rw [drafted] at isDraft
      cases isDraft
      rw [← ready]
      exact (now base derived).2 y rfl
    refine ⟨before.chain, fun now => before.settled (founded now), fun now => ?_,
      fun m finished => by cases finished⟩
    have laid := before.laidOut (founded now)
    rw [TypeDecl.fields, TypeDecl.layout, definition, same] at laid
    exact same.symm ▸ laid.adds adds
  | finish t x known opened accepted =>
    refine sound.setDefinition known opened grows fun id d same lineage definition before => ?_
    have founded := founded_of_accepted lineage definition accepted
    have laid := before.laidOut founded
    rw [TypeDecl.fields, TypeDecl.layout, definition] at laid
    refine ⟨before.chain, fun _ => before.settled founded, fun _ => laid,
      fun _ _ base derived => ?_⟩
    exact ⟨(founded base derived).1, fun z isDraft => by cases isDraft⟩

theorem sound_of_reaches {r : Registry} (reached : Reaches {} r) : r.Sound := by
  induction reached with
  | refl => exact fun id d found => by cases found
  | edit reached e legal ih => exact ih.change (Edit.change legal.known)

/-- Whether `t` is a user-defined type that is there and finished. -/
def Finished (r : Registry) (t : Ty) : Prop :=
  r.knows t = true ∧ r.isFinished t = true

theorem Finished.exists_decl {r : Registry} {t : Ty} (finished : r.Finished t) :
    ∃ (id : TypeId) (d : TypeDecl) (m : Members), r.types[id]? = some d ∧ d.typeAt id = t ∧
      d.definition = .finished m ∧ r.members t = m := by
  obtain ⟨known, isFinished⟩ := finished
  obtain ⟨m, table⟩ := Option.isSome_iff_exists.mp isFinished
  obtain ⟨d, declared, members⟩ := Option.bind_eq_some_iff.mp table
  rcases knows_iff.mp known with builtIn | ⟨id, e, found, rfl⟩
  · rw [decl?, builtIn] at declared
    cases declared
  · rw [decl?_typeAt found] at declared
    cases declared
    refine ⟨id, d, m, found, rfl, TypeDecl.members?_eq_some.mp members, ?_⟩
    rw [Registry.members, table]
    rfl

/-- The slots of the base type, if there is one. -/
def inherited (r : Registry) (t : Ty) : List Ty :=
  ((r.base? t).map r.layout).getD []

/-- A finished type derives from `Object` or a finished class, or it has no base at all. -/
structure Sound.Facts (r : Registry) (t : Ty) : Prop where
  laidOut : LaidOut t (r.inherited t) (r.fields t) (r.layout t)
  base : ∀ base, r.base? t = some base →
    (base = .object ∨ base.isClass = true ∧ r.Finished base) ∧ r.lineage t = r.chain base
  hasBase : t.isClass = (r.base? t).isSome

theorem Sound.facts {r : Registry} (sound : r.Sound) {t : Ty} (finished : r.Finished t) :
    Sound.Facts r t := by
  obtain ⟨id, d, m, found, rfl, definition, members⟩ := finished.exists_decl
  have declared := sound id d found
  have founded := declared.founded m (TypeDecl.members?_eq_some.mpr definition)
  have lineage := lineage_typeAt found
  refine ⟨?_, fun base derived => ?_, ?_⟩
  · have laid := declared.laidOut founded
    rw [TypeDecl.fields, TypeDecl.layout, definition, TypeDecl.inherited, ← lineage] at laid
    rw [Registry.fields, Registry.layout, members]
    exact laid
  · rw [base?, lineage] at derived
    obtain ⟨known, ancestors⟩ := declared.chain base derived
    refine ⟨?_, lineage.trans ancestors⟩
    rcases (founded base derived).1 with top | isClass
    · exact .inl top
    · rcases declared.settled founded base derived with top | isFinished
      · exact .inl top
      · exact .inr ⟨isClass, known, isFinished⟩
  · rw [base?, lineage, TypeDecl.typeAt]
    cases d.lineage <;> rfl

/-- The fields that a type has with those of its ancestors, which come first. -/
def visibleFields (r : Registry) (t : Ty) : List Field :=
  (r.chain t).reverse.flatMap r.fields

theorem mem_visibleFields {r : Registry} {t : Ty} {f : Field} :
    f ∈ r.visibleFields t ↔ ∃ s ∈ r.chain t, f ∈ r.fields s := by
  simp [visibleFields]

theorem visibleFields_of_lineage {r : Registry} {t base : Ty}
    (ancestors : r.lineage t = r.chain base) :
    r.visibleFields t = r.visibleFields base ++ r.fields t := by
  simp [visibleFields, chain, ancestors]

/-- Induction along the base types of a finished type. -/
theorem Sound.induction {r : Registry} (sound : r.Sound) {motive : Ty → Prop}
    (object : motive .object)
    (root : ∀ t, r.Finished t → r.base? t = none → r.chain t = [t] → motive t)
    (derived : ∀ t base, r.Finished t → r.base? t = some base → r.lineage t = r.chain base →
      motive base → motive t)
    {t : Ty} (finished : r.Finished t) : motive t := by
  -- The chain of a base is shorter than that of what derives from it.
  induction length : (r.lineage t).length using Nat.strongRecOn generalizing t with
  | ind n ih =>
    cases found : r.base? t with
    | none => exact root t finished found (congrArg (t :: ·) (List.head?_eq_none_iff.mp found))
    | some base =>
      obtain ⟨ready, ancestors⟩ := (sound.facts finished).base base found
      refine derived t base finished found ancestors ?_
      rcases ready with rfl | ⟨_, baseFinished⟩
      · exact object
      · have shorter : (r.lineage base).length < n := by
          rw [← length, ancestors]
          exact Nat.lt_succ_self _
        exact ih _ shorter baseFinished rfl

/-- The instance fields that are visible on a finished type are its slots, one by one. -/
theorem Sound.cells_visibleFields {r : Registry} (sound : r.Sound) {t : Ty}
    (finished : r.Finished t) :
    (r.visibleFields t).filterMap Field.cell? = (r.layout t).zipIdx := by
  refine sound.induction
    (motive := fun t => (r.visibleFields t).filterMap Field.cell? = (r.layout t).zipIdx)
    ?object ?root ?derived finished
  case object => rfl
  case root =>
    intro t finished noBase alone
    have cells := (sound.facts finished).laidOut.cells
    rw [inherited, noBase] at cells
    rw [cells]
    simp [visibleFields, alone]
  case derived =>
    intro t base finished found ancestors ih
    have cells := (sound.facts finished).laidOut.cells
    rw [inherited, found] at cells
    rw [visibleFields_of_lineage ancestors, List.filterMap_append, ih, cells]
    rfl

theorem Sound.finished_of_mem_chain {r : Registry} (sound : r.Sound) {t s : Ty}
    (finished : r.Finished t) : s ∈ r.chain t → s = .object ∨ r.Finished s := by
  refine sound.induction (motive := fun t => s ∈ r.chain t → s = .object ∨ r.Finished s)
    ?object ?root ?derived finished
  case object => exact fun top => .inl (List.mem_singleton.mp top)
  case root =>
    intro t finished noBase alone ancestor
    rw [alone, List.mem_singleton] at ancestor
    exact .inr (ancestor ▸ finished)
  case derived =>
    intro t base finished found ancestors ih ancestor
    rcases List.mem_cons.mp ancestor with rfl | above
    · exact .inr finished
    · exact ih (ancestors ▸ above)

/-- What the ancestors of a finished type declare is visible on it, and nothing else is. -/
theorem Sound.mem_visibleFields_iff {r : Registry} (sound : r.Sound) {t : Ty}
    (finished : r.Finished t) {f : Field} :
    f ∈ r.visibleFields t ↔ r.Declares f ∧ f.declaring ∈ r.chain t := by
  have declares {s : Ty} (finished : r.Finished s) {f : Field} (own : f.declaring = s) :
      f ∈ r.fields s ↔ r.Declares f := by
    obtain ⟨id, d, m, found, rfl, definition, members⟩ := finished.exists_decl
    have fields : d.fields = r.fields (d.typeAt id) := by
      rw [TypeDecl.fields, definition, Registry.fields, members]
    rw [← fields, Declares, own, decl?_typeAt found]
    simp
  rw [mem_visibleFields]
  constructor
  · rintro ⟨s, ancestor, declared⟩
    rcases sound.finished_of_mem_chain finished ancestor with rfl | finished'
    · cases declared
    · have own := (sound.facts finished').laidOut.declaring f declared
      exact ⟨(declares finished' own).mp declared, own ▸ ancestor⟩
  · rintro ⟨declared, ancestor⟩
    rcases sound.finished_of_mem_chain finished ancestor with top | finished'
    · obtain ⟨d, found, _⟩ := declared
      rw [top] at found
      cases found
    · exact ⟨_, ancestor, (declares finished' rfl).mpr declared⟩

/-- A field whose type accepts instances of a finished type is visible on it. -/
theorem Sound.visible_of_assignable {r : Registry} (sound : r.Sound) {t : Ty}
    (finished : r.Finished t) {f : Field} (declared : r.Declares f)
    (accepts : r.assignable f.declaring t = true) : f ∈ r.visibleFields t := by
  refine (sound.mem_visibleFields_iff finished).mpr ⟨declared, ?_⟩
  rcases (r.assignable_iff _ _).mp accepts with same | ⟨top, _⟩ | above
  · exact same ▸ List.mem_cons_self
  · obtain ⟨d, found, _⟩ := declared
    rw [top] at found
    cases found
  · exact List.mem_cons_of_mem t above

/-- A slot that is visible on a finished type is there, and of the type of its field. -/
theorem Sound.type_of_visible {r : Registry} (sound : r.Sound) {t : Ty} (finished : r.Finished t)
    {f : Field} (visible : f ∈ r.visibleFields t) {i : Nat} (slot : f.slotIndex? = some i) :
    (r.layout t)[i]? = some f.type :=
  Field.type_of_cells (fun _ mem => sound.cells_visibleFields finished ▸ mem) visible slot

/-- A field whose type accepts instances of a finished type has its slot there. -/
theorem Sound.type_of_slot {r : Registry} (sound : r.Sound) {t : Ty} (finished : r.Finished t)
    {f : Field} (declared : r.Declares f) (accepts : r.assignable f.declaring t = true) {i : Nat}
    (storage : f.storage = .slot i) : (r.layout t)[i]? = some f.type :=
  sound.type_of_visible finished (sound.visible_of_assignable finished declared accepts)
    (Field.slotIndex?_eq_some.mpr storage)

theorem Sound.eq_of_visible {r : Registry} (sound : r.Sound) {t : Ty} (finished : r.Finished t)
    {f g : Field} (first : f ∈ r.visibleFields t) (second : g ∈ r.visibleFields t) {i : Nat}
    (slot : f.slotIndex? = some i) (slot' : g.slotIndex? = some i) : f = g := by
  refine Field.eq_of_slotIndex? ?_ first second slot slot'
  rw [← Field.map_snd_cells, sound.cells_visibleFields finished, List.zipIdx_map_snd]
  exact List.nodup_range'

/-- Whether the fields that `t` declares fill its slots behind the inherited ones: their indices are
the remaining ones, in the order of declaration, and static fields take none. -/
structure Fills (r : Registry) (t : Ty) (inherited : List Ty) : Prop where
  inherits : inherited <+: r.layout t
  declaring : ∀ f ∈ r.fields t, f.declaring = t
  slots : (r.fields t).filterMap Field.slotIndex? =
    List.range' inherited.length ((r.layout t).length - inherited.length)
  types : ∀ f ∈ r.fields t, ∀ i, f.slotIndex? = some i → (r.layout t)[i]? = some f.type
  length : (r.layout t).length =
    inherited.length + ((r.fields t).filter fun f => !f.isStatic).length

theorem fills_of_laidOut {r : Registry} {t : Ty} {inherited : List Ty}
    (laid : LaidOut t inherited (r.fields t) (r.layout t)) : r.Fills t inherited :=
  ⟨laid.inherits, laid.declaring, laid.slots,
    fun _ declared _ slot => laid.type_of_slot declared slot, laid.length⟩

/-- In every registry that operations on any number of open definitions lead to, a finished class
derives from `Object` or a finished class and has its slots before its own, and a finished value
type has its own slots only. The member tables of a finished type are final. So the slot of a field
is where the field says in everything that derives from its type, and no other field is there. -/
theorem layouts_of_reaches {r : Registry} (reached : Reaches {} r) :
    (∀ c, c.isClass = true → r.Finished c →
      ∃ base, r.base? c = some base ∧
        (base = .object ∨ base.isClass = true ∧ r.Finished base) ∧ r.Fills c (r.layout base)) ∧
    (∀ s, s.isStruct = true → r.Finished s → r.base? s = none ∧ r.Fills s []) ∧
    (∀ t, r.Finished t → ∀ r', r.Reaches r' → r'.Finished t ∧ r'.members? t = r.members? t) ∧
    (∀ c d, r.Finished d → c ∈ r.chain d → ∀ f ∈ r.fields c, ∀ i, f.slotIndex? = some i →
      (r.layout d)[i]? = some f.type) ∧
    (∀ d, r.Finished d → ∀ f ∈ r.visibleFields d, ∀ g ∈ r.visibleFields d, ∀ i,
      f.slotIndex? = some i → g.slotIndex? = some i → f = g) := by
  have sound := sound_of_reaches reached
  refine ⟨fun c isClass finished => ?_, fun s struct finished => ?_, fun t finished r' later => ?_,
    fun c d finished ancestor f declared i slot => ?_, fun d finished f first g second i => ?_⟩
  · have facts := sound.facts finished
    have hasBase := facts.hasBase
    rw [isClass] at hasBase
    obtain ⟨base, derived⟩ := Option.isSome_iff_exists.mp hasBase.symm
    have laid := facts.laidOut
    rw [inherited, derived] at laid
    exact ⟨base, derived, (facts.base base derived).1, fills_of_laidOut laid⟩
  · have facts := sound.facts finished
    have noBase : r.base? s = none := by
      have hasBase := facts.hasBase
      cases derived : r.base? s with
      | none => rfl
      | some base =>
        rw [derived] at hasBase
        cases s with
        | structType id => cases hasBase
        | _ => cases struct
    have laid := facts.laidOut
    rw [inherited, noBase] at laid
    exact ⟨noBase, fills_of_laidOut laid⟩
  · have grows := later.grows
    obtain ⟨m, table⟩ := Option.isSome_iff_exists.mp finished.2
    refine ⟨⟨grows.knows finished.1, grows.isFinished finished.2⟩, ?_⟩
    rw [table, grows.members? table]
  · exact sound.type_of_visible finished (mem_visibleFields.mpr ⟨c, ancestor, declared⟩) slot
  · exact sound.eq_of_visible finished first second

end Registry

/-! A square is a shape with a corner, which is a point. The three are worked on in turn. -/

namespace Drawing

def shape : Ty := .classType 0
def point : Ty := .structType 1
def square : Ty := .classType 2

def name : Field := ⟨shape, 0, "Name", .string, false, false, .slot 0⟩
def count : Field := ⟨shape, 1, "Count", .int32, false, false, .static⟩
def x : Field := ⟨point, 0, "X", .int32, false, false, .slot 0⟩
def corner : Field := ⟨square, 0, "Corner", point, false, false, .slot 1⟩
def rename : Method := ⟨shape, 0, "Rename", [⟨"name", .string, false⟩], .void, {}⟩

def edits : List Edit :=
  [.startClass "Shape", .startStruct "Point", .addField shape "Name" .string {},
    .addField shape "Count" .int32 { isStatic := true },
    .addMethod shape "Rename" [⟨"name", .string, false⟩] .void {}, .finish shape,
    .startDerived "Square" shape, .addField point "X" .int32 {},
    .addField square "Corner" point {}, .finish square, .finish point]

def registry : Registry :=
  { types := #[
      ⟨"Shape", [.object], .finished (Draft.members
        { fields := [name, count], methods := [rename], layout := [.string] })⟩,
      ⟨"Point", [], .finished (Draft.members { fields := [x], layout := [.int32] })⟩,
      ⟨"Square", [shape, .object], .finished (Draft.members
        { fields := [corner], layout := [.string, point] })⟩] }

theorem replay_edits : Registry.replay {} edits = some registry := by rfl

theorem finished_square : registry.Finished square := ⟨by decide, by decide⟩

theorem finished_point : registry.Finished point := ⟨by decide, by decide⟩

end Drawing

/-- The name of a shape is the first slot of a square and its corner the second. -/
theorem Registry.layouts_of_drawing :
    Reaches {} Drawing.registry ∧
      (∃ base, Drawing.registry.base? Drawing.square = some base ∧
        (base = .object ∨ base.isClass = true ∧ Drawing.registry.Finished base) ∧
        Drawing.registry.Fills Drawing.square (Drawing.registry.layout base)) ∧
      Drawing.registry.Fills Drawing.point [] ∧
      (∀ r', Drawing.registry.Reaches r' →
        r'.members? Drawing.square = Drawing.registry.members? Drawing.square) ∧
      (Drawing.registry.layout Drawing.square)[0]? = some Drawing.name.type ∧
      ∀ f ∈ Drawing.registry.visibleFields Drawing.square,
        f.slotIndex? = some 0 → f = Drawing.name := by
  have reached := reaches_of_replay Drawing.replay_edits
  obtain ⟨classes, structs, final, placed, distinct⟩ := layouts_of_reaches reached
  have square := Drawing.finished_square
  have visible : Drawing.name ∈ Drawing.registry.visibleFields Drawing.square := by decide
  refine ⟨reached, classes _ rfl square, (structs _ rfl Drawing.finished_point).2,
    fun r' later => (final _ square r' later).2, ?_, fun f mem slot => ?_⟩
  · exact placed Drawing.shape Drawing.square square (by decide) Drawing.name (by decide) 0 rfl
  · exact distinct _ square f mem _ visible 0 slot rfl

end MemberAccess
