import MemberAccess.Defining

/-!
Registries that grow. Any number of definitions may be open at once, and their operations come in
any order; a definition that is rejected is not worked on any more. What a registry says about a
type that it knows, later registries say as well, and the member tables of a finished type are
final.
-/

namespace MemberAccess

namespace TypeDecl

/-- The type that a declaration at position `id` declares: only value types have no ancestors. -/
def typeAt (d : TypeDecl) (id : TypeId) : Ty :=
  if d.lineage.isEmpty then .structType id else .classType id

/-- The fields declared so far. -/
def fields (d : TypeDecl) : List Field :=
  match d.definition with
  | .draft x => x.fields
  | .finished t => t.fields

/-- The types of the instance slots so far. -/
def layout (d : TypeDecl) : List Ty :=
  match d.definition with
  | .draft x => x.layout
  | .finished t => t.layout

/-- The methods declared so far. -/
def methods (d : TypeDecl) : List Method :=
  match d.definition with
  | .draft x => x.methods
  | .finished t => t.methods

/-- What later declarations of the same type keep. -/
structure Grows (d d' : TypeDecl) : Prop where
  name : d'.name = d.name
  lineage : d'.lineage = d.lineage
  members? : ∀ t, d.members? = some t → d'.members? = some t
  fields : d.fields <+: d'.fields

theorem Grows.refl (d : TypeDecl) : d.Grows d := ⟨rfl, rfl, fun _ => id, List.prefix_rfl⟩

theorem Grows.trans {d d' d'' : TypeDecl} (first : d.Grows d') (second : d'.Grows d'') :
    d.Grows d'' where
  name := second.name.trans first.name
  lineage := second.lineage.trans first.lineage
  members? t found := second.members? t (first.members? t found)
  fields := first.fields.trans second.fields

theorem Grows.typeAt {d d' : TypeDecl} (grows : d.Grows d') (id : TypeId) :
    d'.typeAt id = d.typeAt id := by
  rw [TypeDecl.typeAt, grows.lineage, TypeDecl.typeAt]

theorem id?_typeAt (d : TypeDecl) (id : TypeId) : (d.typeAt id).id? = some id := by
  unfold TypeDecl.typeAt
  split <;> rfl

end TypeDecl

namespace Registry

/-- Whether `t` is built in or declared. -/
def knows (r : Registry) (t : Ty) : Bool :=
  t.id?.all fun id => r.types[id]?.any fun d => TypeDecl.typeAt d id = t

theorem knows_iff {r : Registry} {t : Ty} :
    r.knows t = true ↔
      t.id? = none ∨ ∃ (id : TypeId) (d : TypeDecl), r.types[id]? = some d ∧ d.typeAt id = t := by
  unfold knows
  cases declared : t.id? with
  | none => simp
  | some id =>
    simp only [Option.all_some, Option.any_eq_true, decide_eq_true_eq, reduceCtorEq, false_or]
    constructor
    · exact fun ⟨d, found, same⟩ => ⟨id, d, found, same⟩
    · rintro ⟨i, d, found, rfl⟩
      rw [d.id?_typeAt, Option.some.injEq] at declared
      subst declared
      exact ⟨d, found, rfl⟩

theorem decl?_typeAt {r : Registry} {id : TypeId} {d : TypeDecl} (found : r.types[id]? = some d) :
    r.decl? (d.typeAt id) = some d := by
  rw [decl?, d.id?_typeAt]
  exact found

theorem lineage_typeAt {r : Registry} {id : TypeId} {d : TypeDecl} (found : r.types[id]? = some d) :
    r.lineage (d.typeAt id) = d.lineage := by
  rw [lineage, decl?_typeAt found]
  rfl

/-- Whether every declaration of `r` has grown into one of `r'`. -/
def Grows (r r' : Registry) : Prop :=
  ∀ (id : TypeId) (d : TypeDecl), r.types[id]? = some d → ∃ d', r'.types[id]? = some d' ∧ d.Grows d'

/-- Whether `f` is a field of a type that is there, whether finished or not. -/
def Declares (r : Registry) (f : Field) : Prop :=
  ∃ d, r.decl? f.declaring = some d ∧ f ∈ d.fields

/-- Only the return type of a method may be `Void`. -/
def Typed (r : Registry) : Prop :=
  ∀ f, r.Declares f → f.type ≠ .void

theorem typed_of_forall {r : Registry} (typed : ∀ d ∈ r.types, ∀ f ∈ d.fields, f.type ≠ .void) :
    r.Typed := by
  rintro f ⟨d, found, mem⟩
  obtain ⟨id, _, found⟩ := Option.bind_eq_some_iff.mp found
  exact typed d (Array.mem_of_getElem? found) f mem

namespace Grows

variable {r r' r'' : Registry}

theorem refl (r : Registry) : r.Grows r := fun _ d found => ⟨d, found, .refl d⟩

theorem trans (first : r.Grows r') (second : r'.Grows r'') : r.Grows r'' := by
  intro id d found
  obtain ⟨d', found', grown⟩ := first id d found
  obtain ⟨d'', found'', grown'⟩ := second id d' found'
  exact ⟨d'', found'', grown.trans grown'⟩

variable (grows : r.Grows r') {t : Ty}

include grows

theorem decl? {d : TypeDecl} (found : r.decl? t = some d) :
    ∃ d', r'.decl? t = some d' ∧ d.Grows d' := by
  unfold Registry.decl? at found ⊢
  cases declared : t.id? with
  | none =>
    rw [declared] at found
    cases found
  | some id =>
    rw [declared] at found
    exact grows id d found

theorem members? {m : Members} (found : r.members? t = some m) : r'.members? t = some m := by
  obtain ⟨d, declared, table⟩ := Option.bind_eq_some_iff.mp found
  obtain ⟨d', declared', grown⟩ := grows.decl? declared
  exact Option.bind_eq_some_iff.mpr ⟨d', declared', grown.members? m table⟩

theorem isFinished (finished : r.isFinished t = true) : r'.isFinished t = true := by
  obtain ⟨m, found⟩ := Option.isSome_iff_exists.mp finished
  exact Option.isSome_iff_exists.mpr ⟨m, grows.members? found⟩

theorem members (finished : r.isFinished t = true) : r'.members t = r.members t := by
  obtain ⟨m, found⟩ := Option.isSome_iff_exists.mp finished
  rw [Registry.members, Registry.members, found, grows.members? found]

theorem layout (finished : r.isFinished t = true) : r'.layout t = r.layout t :=
  congrArg Members.layout (grows.members finished)

theorem knows (known : r.knows t = true) : r'.knows t = true := by
  rw [knows_iff] at known ⊢
  rcases known with builtIn | ⟨id, d, found, same⟩
  · exact .inl builtIn
  · obtain ⟨d', found', grown⟩ := grows id d found
    exact .inr ⟨id, d', found', (grown.typeAt id).trans same⟩

theorem lineage (known : r.knows t = true) : r'.lineage t = r.lineage t := by
  rcases knows_iff.mp known with builtIn | ⟨id, d, found, rfl⟩
  · simp only [Registry.lineage, Registry.decl?, builtIn, Option.bind_none]
  · obtain ⟨d', found', grown⟩ := grows id d found
    have declared : r'.decl? (d.typeAt id) = some d' := grown.typeAt id ▸ decl?_typeAt found'
    rw [Registry.lineage, Registry.lineage, declared, decl?_typeAt found]
    exact grown.lineage

theorem name (known : r.knows t = true) : r'.name t = r.name t := by
  rcases knows_iff.mp known with builtIn | ⟨id, d, found, rfl⟩
  · cases t with
    | structType => cases builtIn
    | classType => cases builtIn
    | primitive p => cases p <;> rfl
    | _ => rfl
  · obtain ⟨d', found', grown⟩ := grows id d found
    unfold TypeDecl.typeAt
    split <;> simp only [Registry.name, found, found', Option.map_some, grown.name]

/-- What a lookup hits on a finished type itself it goes on to hit. -/
theorem search (finished : r.isFinished t = true) {find : Members → Option α} {x : α}
    (hit : find (r.members t) = some x) : r'.search t find = some x := by
  obtain ⟨m, table⟩ := Option.isSome_iff_exists.mp (grows.isFinished finished)
  rw [← grows.members finished, Registry.members, table, Option.getD_some] at hit
  rw [Registry.search, Registry.chain, List.findSome?_cons, table, Option.bind_some, hit]

theorem declares {f : Field} (declared : r.Declares f) : r'.Declares f := by
  obtain ⟨d, found, mem⟩ := declared
  obtain ⟨d', found', grown⟩ := grows.decl? found
  exact ⟨d', found', grown.fields.subset mem⟩

theorem chain (known : r.knows t = true) : r'.chain t = r.chain t :=
  congrArg (t :: ·) (grows.lineage known)

theorem assignable {target : Ty} (assignable : r.assignable target t = true) :
    r'.assignable target t = true := by
  rw [assignable_iff] at assignable ⊢
  refine assignable.imp_right (Or.imp_right fun ancestor => ?_)
  unfold Registry.lineage at ancestor ⊢
  cases declared : r.decl? t with
  | none =>
    rw [declared] at ancestor
    cases ancestor
  | some d =>
    obtain ⟨d', declared', grown⟩ := grows.decl? declared
    rw [declared] at ancestor
    rw [declared', Option.map_some, grown.lineage]
    exact ancestor

end Grows

theorem getElem?_setDefinition {t : Ty} {id : TypeId} (declared : t.id? = some id) (r : Registry)
    (x : Definition) (i : TypeId) :
    (r.setDefinition t x).types[i]? =
      if id = i then (r.types[i]?).map fun d => { d with definition := x } else r.types[i]? := by
  simp only [setDefinition, declared, Array.getElem?_modify]

/-- Replacing a draft by a definition that keeps its fields lets the registry grow. -/
theorem grows_setDefinition {r : Registry} {t : Ty} {x : Draft} (opened : r.draft? t = some x)
    (y : Definition)
    (fields : ∀ d : TypeDecl, x.fields <+: TypeDecl.fields { d with definition := y }) :
    r.Grows (r.setDefinition t y) := by
  obtain ⟨d, found, drafted⟩ := Option.bind_eq_some_iff.mp opened
  obtain ⟨id, declared, found⟩ := Option.bind_eq_some_iff.mp found
  intro i e found'
  rw [getElem?_setDefinition declared, found']
  by_cases same : id = i
  · subst same
    rw [found] at found'
    cases found'
    rw [if_pos rfl]
    have definition := TypeDecl.draft?_eq_some.mp drafted
    refine ⟨_, rfl, rfl, rfl, fun m finished => ?_, ?_⟩
    · rw [TypeDecl.members?_eq_some, definition] at finished
      cases finished
    · rw [TypeDecl.fields, definition]
      exact fields d
  · rw [if_neg same]
    exact ⟨e, rfl, .refl e⟩

theorem grows_addDecl (r : Registry) (d : TypeDecl) : r.Grows (r.addDecl d) := by
  intro id e found
  obtain ⟨bound, same⟩ := Array.getElem?_eq_some_iff.mp found
  refine ⟨e, ?_, .refl e⟩
  simp [addDecl, Array.getElem?_push_lt bound, same]

/-- Two types that are there are the same if they have the same position. -/
theorem eq_of_id? {r : Registry} {t u : Ty} (known : r.knows t = true) (known' : r.knows u = true)
    {id : TypeId} (first : t.id? = some id) (second : u.id? = some id) : t = u := by
  have declared {s : Ty} (known : r.knows s = true) (is : s.id? = some id) :
      ∃ d, r.types[id]? = some d ∧ d.typeAt id = s := by
    rcases knows_iff.mp known with builtIn | ⟨i, d, found, rfl⟩
    · rw [is] at builtIn
      cases builtIn
    · rw [d.id?_typeAt] at is
      cases is
      exact ⟨d, found, rfl⟩
  obtain ⟨d, found, rfl⟩ := declared known first
  obtain ⟨d', found', rfl⟩ := declared known' second
  rw [found] at found'
  cases found'
  rfl

theorem decl?_addDecl {r : Registry} {t : Ty} (known : r.knows t = true) (d : TypeDecl) :
    (r.addDecl d).decl? t = r.decl? t := by
  rcases knows_iff.mp known with builtIn | ⟨id, e, found, rfl⟩
  · simp only [decl?, builtIn, Option.bind_none]
  · obtain ⟨bound, same⟩ := Array.getElem?_eq_some_iff.mp found
    rw [decl?_typeAt found, decl?, e.id?_typeAt, Option.bind_some, addDecl,
      Array.getElem?_push_lt bound, same]

theorem decl?_setDefinition {r : Registry} {t : Ty} {d : TypeDecl} (declared : r.decl? t = some d)
    (y : Definition) : (r.setDefinition t y).decl? t = some { d with definition := y } := by
  obtain ⟨id, is, found⟩ := Option.bind_eq_some_iff.mp declared
  rw [decl?, is, Option.bind_some, getElem?_setDefinition is, if_pos rfl, found]
  rfl

theorem decl?_setDefinition_of_ne {r : Registry} {t u : Ty} (known : r.knows t = true)
    (known' : r.knows u = true) (other : u ≠ t) (y : Definition) :
    (r.setDefinition t y).decl? u = r.decl? u := by
  cases is : t.id? with
  | none => simp only [setDefinition, is]
  | some id =>
    cases is' : u.id? with
    | none => simp only [decl?, is', Option.bind_none]
    | some id' =>
      have apart : id ≠ id' := by
        rintro rfl
        exact other (eq_of_id? known' known is' is)
      rw [decl?, decl?, is', Option.bind_some, getElem?_setDefinition is, if_neg apart]
      rfl

theorem knows_setDefinition {r : Registry} (t : Ty) (y : Definition) (u : Ty) :
    (r.setDefinition t y).knows u = r.knows u := by
  cases is : t.id? with
  | none => simp only [setDefinition, is]
  | some id =>
    unfold knows
    congr 1
    funext i
    rw [getElem?_setDefinition is]
    split
    · cases r.types[i]? <;> rfl
    · rfl

theorem draft?_setDraft {r : Registry} {t : Ty} {x : Draft} (opened : r.draft? t = some x)
    (y : Draft) : (r.setDraft t y).draft? t = some y := by
  obtain ⟨d, declared, _⟩ := Option.bind_eq_some_iff.mp opened
  rw [draft?, setDraft, decl?_setDefinition declared]
  rfl

theorem members?_setDefinition {r : Registry} {t : Ty} {x : Draft} (opened : r.draft? t = some x)
    (m : Members) : (r.setDefinition t (.finished m)).members? t = some m := by
  obtain ⟨d, declared, _⟩ := Option.bind_eq_some_iff.mp opened
  rw [members?, decl?_setDefinition declared]
  rfl

theorem draft?_of_members? {r : Registry} {t : Ty} {m : Members}
    (finished : r.members? t = some m) : r.draft? t = none := by
  obtain ⟨d, declared, members⟩ := Option.bind_eq_some_iff.mp finished
  rw [draft?, declared, Option.bind_some, TypeDecl.draft?, TypeDecl.members?_eq_some.mp members]

theorem draft?_congr {r r' : Registry} {t : Ty} (same : r'.decl? t = r.decl? t) :
    r'.draft? t = r.draft? t := by
  rw [draft?, draft?, same]

theorem members?_congr {r r' : Registry} {t : Ty} (same : r'.decl? t = r.decl? t) :
    r'.members? t = r.members? t := by
  rw [members?, members?, same]

end Registry

/-- An operation on the definitions of types. -/
inductive Edit
  | startClass (name : String)
  | startDerived (name : String) (base : Ty)
  | startStruct (name : String)
  | addField (t : Ty) (name : String) (type : Ty) (flags : Flags)
  | addConstructor (t : Ty) (params : List Param) (flags : Flags)
  | addMethod (t : Ty) (name : String) (params : List Param) (returns : Ty) (flags : Flags)
  | addProperty (t : Ty) (name : String) (type : Ty) (index : List Param)
      (getter? setter? : Option Method)
  | finish (t : Ty)

namespace Edit

/-- The registry after an operation; one that is rejected, or comes too late, changes nothing. -/
def apply (r : Registry) : Edit → Registry
  | startClass name => (r.startClass name).1
  | startDerived name base => (r.startDerived name base).1
  | startStruct name => (r.startStruct name).1
  | addField t name type flags => ((r.addField t name type flags).map Prod.fst).getD r
  | addConstructor t params flags => ((r.addConstructor t params flags).map Prod.fst).getD r
  | addMethod t name params returns flags =>
    ((r.addMethod t name params returns flags).map Prod.fst).getD r
  | addProperty t name type index getter? setter? =>
    ((r.addProperty t name type index getter? setter?).map Prod.fst).getD r
  | finish t => ((r.finish t).bind Except.toOption).getD r

def mentions : Edit → List Ty
  | startClass _ | startStruct _ => []
  | startDerived _ base => [base]
  | addField t _ type _ => [t, type]
  | addConstructor t params _ => t :: params.map Param.type
  | addMethod t _ params returns _ => t :: returns :: params.map Param.type
  | addProperty t _ type index _ _ => t :: type :: index.map Param.type
  | finish t => [t]

/-- The type whose definition the operation works on. -/
def target? : Edit → Option Ty
  | startClass _ | startDerived _ _ | startStruct _ => none
  | addField t _ _ _ | addConstructor t _ _ | addMethod t _ _ _ _ | addProperty t _ _ _ _ _
  | finish t => some t

/-- Nothing can be said of a type before it is there. -/
def Known (r : Registry) (e : Edit) : Prop :=
  ∀ t ∈ e.mentions, r.knows t = true

/-- Whether the operation is a `finish` of a definition that cannot be finished. -/
def rejected (r : Registry) : Edit → Bool
  | finish t => (r.draft? t).any fun x => (r.rejection? t x).isSome
  | _ => false

/-- Whether the operation is a step from `r`. A rejected `finish` is none: it leaves the registry as
it was, and its definition is gone with it. -/
structure Legal (r : Registry) (e : Edit) : Prop where
  known : e.Known r
  accepted : e.rejected r = false

/-- Whether `later` may come after the operation: nothing works on a definition that has been
rejected. -/
def Allows (r : Registry) (e : Edit) (later : List Edit) : Prop :=
  e.rejected r = true → ∀ l ∈ later, l.target? ≠ e.target?

instance (r : Registry) (e : Edit) : Decidable (e.Known r) :=
  inferInstanceAs (Decidable (∀ t ∈ e.mentions, r.knows t = true))

instance (r : Registry) (e : Edit) : Decidable (e.Legal r) :=
  decidable_of_iff (e.Known r ∧ e.rejected r = false)
    ⟨fun ⟨known, accepted⟩ => ⟨known, accepted⟩, fun legal => ⟨legal.known, legal.accepted⟩⟩

instance (r : Registry) (e : Edit) (later : List Edit) : Decidable (e.Allows r later) :=
  inferInstanceAs (Decidable (e.rejected r = true → ∀ l ∈ later, l.target? ≠ e.target?))

theorem Legal.allows {r : Registry} {e : Edit} (legal : e.Legal r) (later : List Edit) :
    e.Allows r later := by
  intro rejected
  rw [legal.accepted] at rejected
  cases rejected

theorem apply_of_rejected {r : Registry} {e : Edit} (rejected : e.rejected r = true) :
    e.apply r = r := by
  cases e with
  | finish t =>
    obtain ⟨x, opened, objected⟩ := (Option.any_eq_true _ _).mp rejected
    obtain ⟨error, objection⟩ := Option.isSome_iff_exists.mp objected
    simp only [apply, Registry.finish, opened, Option.map_some, objection]
    rfl
  | _ => cases rejected

end Edit

/-- What one more member makes of a draft of `t`. -/
inductive Draft.Adds (t : Ty) (x : Draft) : Draft → Prop
  | instanceField (f : Field) (declaring : f.declaring = t)
      (storage : f.storage = .slot x.layout.length) :
      Adds t x { x with fields := x.fields ++ [f], layout := x.layout ++ [f.type] }
  | staticField (f : Field) (declaring : f.declaring = t) (storage : f.storage = .static) :
      Adds t x { x with fields := x.fields ++ [f] }
  | other (y : Draft) (fields : y.fields = x.fields) (layout : y.layout = x.layout)
      (ready : y.baseReady = x.baseReady)
      (methods : ∀ m ∈ y.methods, m ∈ x.methods ∨ m.declaring = t) : Adds t x y

/-- A member that is new to a draft of `t` is declared by `t`. -/
theorem Draft.Adds.declaring_of_mem {t : Ty} {x y : Draft} (adds : x.Adds t y) {m : Method}
    (mem : m ∈ y.methods) : m ∈ x.methods ∨ m.declaring = t := by
  cases adds with
  | instanceField f declaring storage => exact .inl mem
  | staticField f declaring storage => exact .inl mem
  | other y fields layout ready methods => exact methods m mem

namespace Registry

/-- All that an operation can do to a registry. -/
inductive Change (r : Registry) : Registry → Prop
  | none : Change r r
  | startDerived (name : String) (base : Ty) (known : r.knows base = true) :
      Change r (r.startDerived name base).1
  | startStruct (name : String) : Change r (r.startStruct name).1
  | add (t : Ty) (x y : Draft) (known : r.knows t = true) (opened : r.draft? t = some x)
      (adds : x.Adds t y) (slots : ∀ u ∈ y.layout, u ∈ x.layout ∨ r.knows u = true) :
      Change r (r.setDraft t y)
  | finish (t : Ty) (x : Draft) (known : r.knows t = true) (opened : r.draft? t = some x)
      (accepted : r.rejection? t x = Option.none) :
      Change r (r.setDefinition t (.finished x.members))

theorem Change.grows {r r' : Registry} (change : r.Change r') : r.Grows r' := by
  cases change with
  | none => exact .refl r
  | startDerived name base known => exact grows_addDecl r _
  | startStruct name => exact grows_addDecl r _
  | add t x y known opened adds slots =>
    refine grows_setDefinition opened _ fun d => ?_
    cases adds with
    | instanceField f declaring storage => exact List.prefix_append _ _
    | staticField f declaring storage => exact List.prefix_append _ _
    | other y fields layout ready methods => exact fields ▸ List.prefix_rfl
  | finish t x known opened accepted =>
    exact grows_setDefinition opened _ fun d => List.prefix_rfl

/-- Adding to a draft is a change, and where there is no draft nothing happens. -/
theorem Change.of_draft {r : Registry} {t : Ty} (known : r.knows t = true) (f : Draft → Draft)
    (adds : ∀ x : Draft, x.Adds t (f x))
    (slots : ∀ x : Draft, ∀ u ∈ (f x).layout, u ∈ x.layout ∨ r.knows u = true) :
    r.Change (((r.draft? t).map fun x => r.setDraft t (f x)).getD r) := by
  cases opened : r.draft? t with
  | none => exact .none
  | some x => exact .add t x _ known opened (adds x) (slots x)

end Registry

theorem Edit.change {r : Registry} {e : Edit} (known : e.Known r) : r.Change (e.apply r) := by
  cases e with
  | startClass name => exact .startDerived name .object rfl
  | startDerived name base => exact .startDerived name base (known base List.mem_cons_self)
  | startStruct name => exact .startStruct name
  | addField t name type flags =>
    have typed : r.knows type = true := known type (List.mem_cons_of_mem t List.mem_cons_self)
    rw [apply, Registry.addField, Option.map_map]
    refine .of_draft (known t List.mem_cons_self) _ (fun x => ?_) fun x u mem => ?_
    · by_cases static : flags.isStatic = true
      · simp only [if_pos static]
        exact .staticField _ rfl rfl
      · simp only [if_neg static]
        exact .instanceField _ rfl rfl
    · by_cases static : flags.isStatic = true
      · simp only [if_pos static] at mem
        exact .inl mem
      · simp only [if_neg static, List.mem_append, List.mem_singleton] at mem
        rcases mem with old | rfl
        · exact .inl old
        · exact .inr typed
  | addConstructor t params flags =>
    rw [apply, Registry.addConstructor, Option.map_map]
    exact .of_draft (known t List.mem_cons_self) _
      (fun x => .other _ rfl rfl rfl fun m mem => .inl mem) fun x u mem => .inl mem
  | addMethod t name params returns flags =>
    rw [apply, Registry.addMethod, Option.map_map]
    refine .of_draft (known t List.mem_cons_self) _
      (fun x => .other _ rfl rfl rfl fun m mem => ?_) fun x u mem => .inl mem
    rcases List.mem_append.mp mem with old | new
    · exact .inl old
    · rw [List.mem_singleton.mp new]
      exact .inr rfl
  | addProperty t name type index getter? setter? =>
    rw [apply, Registry.addProperty, Option.map_map]
    exact .of_draft (known t List.mem_cons_self) _
      (fun x => .other _ rfl rfl rfl fun m mem => .inl mem) fun x u mem => .inl mem
  | finish t =>
    have declared : r.knows t = true := known t List.mem_cons_self
    rw [apply, Registry.finish]
    cases opened : r.draft? t with
    | none => exact .none
    | some x =>
      simp only [Option.map_some, Option.bind_some]
      cases accepted : r.rejection? t x with
      | some e => exact .none
      | none => exact .finish t x declared opened accepted

/-- The registries that operations lead to from `r`, in any order. -/
inductive Registry.Reaches (r : Registry) : Registry → Prop
  | refl : r.Reaches r
  | edit {r' : Registry} (reached : r.Reaches r') (e : Edit) (legal : e.Legal r') :
      r.Reaches (e.apply r')

namespace Registry

variable {r r' r'' : Registry} {edits : List Edit}

theorem Reaches.grows (reached : r.Reaches r') : r.Grows r' := by
  induction reached with
  | refl => exact .refl r
  | edit reached e legal ih => exact ih.trans (Edit.change legal.known).grows

theorem Reaches.trans (first : r.Reaches r') (second : r'.Reaches r'') : r.Reaches r'' := by
  induction second with
  | refl => exact first
  | edit reached e legal ih => exact .edit ih e legal

theorem Reaches.apply (reached : r.Reaches r') {e : Edit} (known : e.Known r') :
    r.Reaches (e.apply r') := by
  cases accepted : e.rejected r' with
  | true => rwa [Edit.apply_of_rejected accepted]
  | false => exact .edit reached e ⟨known, accepted⟩

/-- Does operations one after another, as long as they can be done; definitions may be rejected on
the way. -/
def replay (r : Registry) : List Edit → Option Registry
  | [] => some r
  | e :: rest => if e.Known r ∧ e.Allows r rest then (e.apply r).replay rest else none

theorem replay_cons_eq_some {e : Edit} :
    r.replay (e :: edits) = some r' ↔
      (e.Known r ∧ e.Allows r edits) ∧ (e.apply r).replay edits = some r' := by
  rw [replay, Option.ite_none_right_eq_some]

/-- Rejected definitions make no difference to what registries there are. -/
theorem reaches_iff_replay : r.Reaches r' ↔ ∃ edits, r.replay edits = some r' := by
  constructor
  · intro reached
    -- Whatever follows, the operations that led here can be put in front of it.
    suffices ∀ edits r'', r'.replay edits = some r'' → ∃ edits, r.replay edits = some r'' from
      this [] r' rfl
    induction reached with
    | refl => exact fun edits r'' replayed => ⟨edits, replayed⟩
    | edit reached e legal ih =>
      intro edits r'' replayed
      have possible := And.intro legal.known (legal.allows edits)
      exact ih (e :: edits) r'' (replay_cons_eq_some.mpr ⟨possible, replayed⟩)
  · rintro ⟨edits, replayed⟩
    induction edits generalizing r with
    | nil =>
      cases replayed
      exact .refl
    | cons e rest ih =>
      obtain ⟨⟨known, _⟩, replayed⟩ := replay_cons_eq_some.mp replayed
      exact (Reaches.refl.apply known).trans (ih replayed)

theorem reaches_of_replay (replayed : r.replay edits = some r') : r.Reaches r' :=
  reaches_iff_replay.mpr ⟨edits, replayed⟩

end Registry

end MemberAccess
