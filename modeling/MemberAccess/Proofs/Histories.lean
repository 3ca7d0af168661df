import MemberAccess.Proofs.Layouts

/-!
Histories of definitions. From its start on, the draft of a type has the slots that were known of
its base then and the members that have been declared on it since, in this order. What happens to
other types in between does not show in it.
-/

namespace MemberAccess

/-- A member of any kind. -/
inductive Member
  | field (f : Field)
  | constructor (c : Constructor)
  | method (m : Method)
  | property (p : Property)

namespace Member

def declaring : Member → Ty
  | field f => f.declaring
  | constructor c => c.declaring
  | method m => m.declaring
  | property p => p.declaring

def field? : Member → Option Field
  | field f => some f
  | _ => none

def constructor? : Member → Option Constructor
  | constructor c => some c
  | _ => none

def method? : Member → Option Method
  | method m => some m
  | _ => none

def property? : Member → Option Property
  | property p => some p
  | _ => none

end Member

namespace Draft

/-- The draft that a type begins with when it is started in `r`. -/
def start (r : Registry) (base? : Option Ty) : Draft :=
  { layout := (base?.map r.layout).getD []
    baseReady := base?.all fun base => !base.isClass || r.isFinished base }

/-- The draft with one more member. -/
def declare (x : Draft) : Member → Draft
  | .field f =>
    { x with fields := x.fields ++ [f]
             layout := if f.isStatic then x.layout else x.layout ++ [f.type] }
  | .constructor c => { x with constructors := x.constructors ++ [c] }
  | .method m => { x with methods := x.methods ++ [m] }
  | .property p => { x with properties := x.properties ++ [p] }

/-- Members are kept by kind, each kind in the order of declaration. -/
theorem foldl_declare (x : Draft) (ms : List Member) :
    ms.foldl declare x =
      { x with
        fields := x.fields ++ ms.filterMap Member.field?
        constructors := x.constructors ++ ms.filterMap Member.constructor?
        methods := x.methods ++ ms.filterMap Member.method?
        properties := x.properties ++ ms.filterMap Member.property?
        layout := x.layout ++
          ((ms.filterMap Member.field?).filter fun f => !f.isStatic).map Field.type } := by
  induction ms generalizing x with
  | nil => simp
  | cons m rest ih =>
    rw [List.foldl_cons, ih]
    simp only [List.filterMap_cons]
    cases m with
    | field f =>
      cases static : f.isStatic <;> simp [declare, Member.field?, Member.constructor?,
        Member.method?, Member.property?, static]
    | _ =>
      simp [declare, Member.field?, Member.constructor?, Member.method?, Member.property?]

end Draft

namespace Edit

/-- The type that an operation starts, and its base; value types have none. -/
def start? (r : Registry) : Edit → Option (Ty × Option Ty)
  | startClass name => some ((r.startClass name).2, some .object)
  | startDerived name base => some ((r.startDerived name base).2, some base)
  | startStruct name => some ((r.startStruct name).2, none)
  | _ => none

/-- The member that an operation declares. -/
def member? (r : Registry) : Edit → Option Member
  | addField t name type flags => (r.addField t name type flags).map fun a => .field a.2
  | addConstructor t params flags =>
    (r.addConstructor t params flags).map fun a => .constructor a.2
  | addMethod t name params returns flags =>
    (r.addMethod t name params returns flags).map fun a => .method a.2
  | addProperty t name type index getter? setter? =>
    (r.addProperty t name type index getter? setter?).map fun a => .property a.2
  | _ => none

/-- The members that an operation declares on `t`: one or none. -/
def declared (r : Registry) (t : Ty) (e : Edit) : List Member :=
  (e.member? r).toList.filter (·.declaring = t)

/-- What an operation does, by what it starts and what it declares. -/
inductive Effect (r : Registry) (e : Edit) : Registry → Prop
  | starts (d : TypeDecl) (base? : Option Ty)
      (start : e.start? r = some (d.typeAt r.types.size, base?)) (nothing : e.member? r = none)
      (lineage : d.lineage = (base?.map r.chain).getD [])
      (definition : d.definition = .draft (.start r base?)) : Effect r e (r.addDecl d)
  | declares (m : Member) (x : Draft) (nothing : e.start? r = none)
      (member : e.member? r = some m) (opened : r.draft? m.declaring = some x)
      (mentioned : m.declaring ∈ e.mentions) : Effect r e (r.setDraft m.declaring (x.declare m))
  | finishes (t : Ty) (x : Draft) (is : e = .finish t) (opened : r.draft? t = some x) :
      Effect r e (r.setDefinition t (.finished x.members))
  | none (noStart : e.start? r = none) (noMember : e.member? r = none) : Effect r e r

/-- Declaring adds a member to an open draft, and does nothing else. -/
theorem effect_of_add {r : Registry} {e : Edit} {t : Ty} {α : Type} (f : Draft → Draft)
    (member : Draft → α) (wrap : α → Member)
    (start : e.start? r = Option.none)
    (declares : e.member? r = ((r.draft? t).map fun x => (r.setDraft t (f x), member x)).map
      fun a => wrap a.2)
    (applied : e.apply r = (((r.draft? t).map fun x => (r.setDraft t (f x), member x)).map
      Prod.fst).getD r)
    (declaring : ∀ x, (wrap (member x)).declaring = t)
    (adds : ∀ x, f x = x.declare (wrap (member x))) (mentioned : t ∈ e.mentions) :
    e.Effect r (e.apply r) := by
  rw [applied]
  cases opened : r.draft? t with
  | none =>
    rw [opened] at declares
    exact .none start declares
  | some x =>
    rw [opened] at declares
    have effect := Effect.declares (wrap (member x)) x start declares (declaring x ▸ opened)
      (declaring x ▸ mentioned)
    rw [declaring, ← adds] at effect
    exact effect

theorem effect (r : Registry) (e : Edit) : e.Effect r (e.apply r) := by
  cases e with
  | startClass name => exact .starts _ (some .object) rfl rfl rfl rfl
  | startDerived name base => exact .starts _ (some base) rfl rfl rfl rfl
  | startStruct name => exact .starts _ Option.none rfl rfl rfl rfl
  | addField t name type flags =>
    refine effect_of_add _ _ .field rfl rfl rfl (fun _ => rfl) (fun x => ?_) List.mem_cons_self
    cases static : flags.isStatic <;> simp [Draft.declare, Field.isStatic]
  | addConstructor t params flags =>
    exact effect_of_add _ _ .constructor rfl rfl rfl (fun _ => rfl) (fun _ => rfl)
      List.mem_cons_self
  | addMethod t name params returns flags =>
    exact effect_of_add _ _ .method rfl rfl rfl (fun _ => rfl) (fun _ => rfl) List.mem_cons_self
  | addProperty t name type index getter? setter? =>
    exact effect_of_add _ _ .property rfl rfl rfl (fun _ => rfl) (fun _ => rfl) List.mem_cons_self
  | finish t =>
    rw [apply, Registry.finish]
    cases opened : r.draft? t with
    | none => exact .none rfl rfl
    | some x =>
      simp only [Option.map_some, Option.bind_some]
      cases r.rejection? t x with
      | some e => exact .none rfl rfl
      | none => exact .finishes t x rfl opened

theorem declared_of_rejected {r : Registry} {e : Edit} (rejected : e.rejected r = true) (t : Ty) :
    e.declared r t = [] := by
  cases e with
  | finish u => rfl
  | _ => cases rejected

end Edit

/-- What a draft is after an operation: it has what the operation has declared on its type. -/
theorem Edit.draft?_apply {r : Registry} {e : Edit} (mentions : e.Known r) {t : Ty}
    (known : r.knows t = true) {y : Draft} (opened : (e.apply r).draft? t = some y) :
    ∃ x, r.draft? t = some x ∧ y = (e.declared r t).foldl Draft.declare x := by
  have effect := e.effect r
  generalize e.apply r = r' at effect opened
  cases effect with
  | starts d base? start nothing lineage definition =>
    rw [Registry.draft?_congr (Registry.decl?_addDecl known d)] at opened
    exact ⟨y, opened, by simp [declared, nothing]⟩
  | declares m x nothing member before mentioned =>
    by_cases own : m.declaring = t
    · subst own
      rw [Registry.draft?_setDraft before] at opened
      cases opened
      exact ⟨x, before, by simp [declared, member]⟩
    · have kept := Registry.decl?_setDefinition_of_ne (mentions _ mentioned) known (Ne.symm own)
        (.draft (x.declare m))
      rw [Registry.setDraft, Registry.draft?_congr kept] at opened
      exact ⟨y, opened, by simp [declared, member, own]⟩
  | finishes u x is before =>
    subst is
    by_cases own : u = t
    · subst own
      rw [Registry.draft?_of_members? (Registry.members?_setDefinition before x.members)] at opened
      cases opened
    · have kept := Registry.decl?_setDefinition_of_ne (mentions u List.mem_cons_self) known
        (Ne.symm own) (.finished x.members)
      rw [Registry.draft?_congr kept] at opened
      exact ⟨y, opened, rfl⟩
  | none noStart noMember => exact ⟨y, opened, by simp [declared, noMember]⟩

/-- Nothing is declared on a type that is not there. -/
theorem Edit.declared_eq_nil {r : Registry} {e : Edit} (mentions : e.Known r) {t : Ty}
    (unknown : r.knows t = false) : e.declared r t = [] := by
  have effect := e.effect r
  generalize e.apply r = r' at effect
  cases effect with
  | starts d base? start nothing lineage definition => simp [declared, nothing]
  | declares m x nothing member before mentioned =>
    have other : m.declaring ≠ t := by
      rintro rfl
      rw [mentions _ mentioned] at unknown
      cases unknown
    simp [declared, member, other]
  | finishes u x is before =>
    subst is
    rfl
  | none noStart noMember => simp [declared, noMember]

/-- What a finished type is after an operation: it was finished before or is so now, and nothing has
been declared on it. -/
theorem Edit.members?_apply {r : Registry} {e : Edit} (mentions : e.Known r) {t : Ty}
    (known : r.knows t = true) {m : Members} (finished : (e.apply r).members? t = some m) :
    e.declared r t = [] ∧
      (r.members? t = some m ∨ ∃ x, r.draft? t = some x ∧ m = x.members) := by
  have effect := e.effect r
  generalize e.apply r = r' at effect finished
  cases effect with
  | starts d base? start nothing lineage definition =>
    rw [Registry.members?_congr (Registry.decl?_addDecl known d)] at finished
    exact ⟨by simp [declared, nothing], .inl finished⟩
  | declares m x nothing member before mentioned =>
    by_cases own : m.declaring = t
    · subst own
      have opened := Registry.draft?_setDraft before (x.declare m)
      rw [Registry.draft?_of_members? finished] at opened
      cases opened
    · have kept := Registry.decl?_setDefinition_of_ne (mentions _ mentioned) known (Ne.symm own)
        (.draft (x.declare m))
      rw [Registry.setDraft, Registry.members?_congr kept] at finished
      exact ⟨by simp [declared, member, own], .inl finished⟩
  | finishes u x is before =>
    subst is
    refine ⟨rfl, ?_⟩
    by_cases own : u = t
    · subst own
      rw [Registry.members?_setDefinition before x.members] at finished
      cases finished
      exact .inr ⟨x, before, rfl⟩
    · have kept := Registry.decl?_setDefinition_of_ne (mentions u List.mem_cons_self) known
        (Ne.symm own) (.finished x.members)
      rw [Registry.members?_congr kept] at finished
      exact .inl finished
  | none noStart noMember => exact ⟨by simp [declared, noMember], .inl finished⟩

/-- A type that is there was there before the operation or has been started by it. -/
theorem Edit.knows_apply {r : Registry} {e : Edit} {t : Ty} (known : (e.apply r).knows t = true) :
    r.knows t = true ∨ ∃ base?, e.start? r = some (t, base?) := by
  have effect := e.effect r
  generalize e.apply r = r' at effect known
  cases effect with
  | starts d base? start nothing lineage definition =>
    rcases Registry.knows_iff.mp known with builtIn | ⟨id, d', found, rfl⟩
    · exact .inl (Registry.knows_iff.mpr (.inl builtIn))
    · rcases Registry.of_getElem?_addDecl found with kept | ⟨rfl, rfl⟩
      · exact .inl (Registry.knows_iff.mpr (.inr ⟨id, d', kept, rfl⟩))
      · exact .inr ⟨base?, start⟩
  | declares m x nothing member before mentioned =>
    exact .inl (Registry.knows_setDefinition m.declaring _ t ▸ known)
  | finishes u x is before => exact .inl (Registry.knows_setDefinition u _ t ▸ known)
  | none noStart noMember => exact .inl known

/-- Whether `r` comes after the start of `t` in `r₀`, with `base?` as its base; the members `ms`
have been declared on it since. -/
inductive Registry.Since (r₀ : Registry) (t : Ty) (base? : Option Ty) :
    List Member → Registry → Prop
  | start (e : Edit) (legal : e.Legal r₀) (starts : e.start? r₀ = some (t, base?)) :
      Since r₀ t base? [] (e.apply r₀)
  | edit {ms : List Member} {r : Registry} (since : Since r₀ t base? ms r) (e : Edit)
      (legal : e.Legal r) : Since r₀ t base? (ms ++ e.declared r t) (e.apply r)

namespace Registry.Since

variable {r₀ r : Registry} {t : Ty} {base? : Option Ty} {ms : List Member}

/-- What the registry has of a type that has just been started. -/
theorem decl_start {e : Edit} (starts : e.start? r₀ = some (t, base?)) :
    (e.apply r₀).knows t = true ∧ ∃ d, (e.apply r₀).decl? t = some d ∧
      d.lineage = (base?.map r₀.chain).getD [] ∧ d.definition = .draft (.start r₀ base?) := by
  have effect := e.effect r₀
  generalize e.apply r₀ = r' at effect
  cases effect with
  | starts d base' start nothing lineage definition =>
    rw [start] at starts
    cases starts
    have found : (r₀.addDecl d).types[r₀.types.size]? = some d := Array.getElem?_push_size
    exact ⟨knows_iff.mpr (.inr ⟨_, d, found, rfl⟩), d, decl?_typeAt found, lineage, definition⟩
  | declares m x nothing member before mentioned =>
    rw [nothing] at starts
    cases starts
  | finishes u x is before =>
    subst is
    cases starts
  | none noStart noMember =>
    rw [noStart] at starts
    cases starts

theorem knows (since : r₀.Since t base? ms r) : r.knows t = true := by
  induction since with
  | start e legal starts => exact (decl_start starts).1
  | edit since e legal ih => exact (Edit.change legal.known).grows.knows ih

theorem lineage (since : r₀.Since t base? ms r) : r.lineage t = (base?.map r₀.chain).getD [] := by
  induction since with
  | start e legal starts =>
    obtain ⟨d, declared, lineage, _⟩ := (decl_start starts).2
    rw [Registry.lineage, declared]
    exact lineage
  | edit since e legal ih => exact ((Edit.change legal.known).grows.lineage since.knows).trans ih

theorem base (since : r₀.Since t base? ms r) : r.base? t = base? := by
  rw [Registry.base?, since.lineage]
  cases base? <;> rfl

/-- A draft is what its type was started with and what has been declared since. -/
theorem draft (since : r₀.Since t base? ms r) {x : Draft} (opened : r.draft? t = some x) :
    x = ms.foldl Draft.declare (.start r₀ base?) := by
  induction since generalizing x with
  | start e legal starts =>
    obtain ⟨d, declared, _, definition⟩ := (decl_start starts).2
    rw [draft?, declared, Option.bind_some, TypeDecl.draft?_eq_some, definition] at opened
    cases opened
    rfl
  | edit since e legal ih =>
    obtain ⟨before, opened', rfl⟩ := Edit.draft?_apply legal.known since.knows opened
    rw [List.foldl_append, ih opened']

/-- The member tables of a finished type are those of its draft when it was finished. -/
theorem tables (since : r₀.Since t base? ms r) {m : Members} (finished : r.members? t = some m) :
    m = (ms.foldl Draft.declare (.start r₀ base?)).members := by
  induction since with
  | start e legal starts =>
    obtain ⟨d, declared, _, definition⟩ := (decl_start starts).2
    rw [members?, declared, Option.bind_some, TypeDecl.members?_eq_some, definition] at finished
    cases finished
  | edit since e legal ih =>
    obtain ⟨nothing, old | ⟨x, opened, rfl⟩⟩ := Edit.members?_apply legal.known since.knows finished
    · rw [nothing, List.append_nil, ih old]
    · rw [nothing, List.append_nil, ← since.draft opened]

end Registry.Since

namespace Registry

/-- Every user-defined type has been started at some point. -/
theorem exists_since {r : Registry} (reached : Reaches {} r) {t : Ty} (known : r.knows t = true)
    (userDefined : t.id?.isSome = true) :
    ∃ r₀ base? ms, Reaches {} r₀ ∧ r₀.Since t base? ms r := by
  induction reached with
  | refl =>
    obtain ⟨id, is⟩ := Option.isSome_iff_exists.mp userDefined
    simp [knows, is] at known
  | @edit r' reached e legal ih =>
    rcases Edit.knows_apply known with before | ⟨base?, starts⟩
    · obtain ⟨r₀, base?, ms, reached₀, since⟩ := ih before
      exact ⟨r₀, base?, _, reached₀, since.edit e legal⟩
    · exact ⟨r', base?, [], reached, .start e legal starts⟩

/-- The members that operations declare on `t` one after another. -/
def declared (t : Ty) (r : Registry) : List Edit → List Member
  | [] => []
  | e :: rest => e.declared r t ++ declared t (e.apply r) rest

theorem Since.apply {r₀ r : Registry} {t : Ty} {base? : Option Ty} {ms : List Member}
    (since : r₀.Since t base? ms r) {e : Edit} (known : e.Known r) :
    r₀.Since t base? (ms ++ e.declared r t) (e.apply r) := by
  cases accepted : e.rejected r with
  | true =>
    rw [Edit.declared_of_rejected accepted, List.append_nil, Edit.apply_of_rejected accepted]
    exact since
  | false => exact since.edit e ⟨known, accepted⟩

theorem Since.replay {r₀ r r' : Registry} {t : Ty} {base? : Option Ty} {ms : List Member}
    {edits : List Edit} (since : r₀.Since t base? ms r) (replayed : r.replay edits = some r') :
    r₀.Since t base? (ms ++ r.declared t edits) r' := by
  induction edits generalizing r ms with
  | nil =>
    cases replayed
    rw [declared, List.append_nil]
    exact since
  | cons e rest ih =>
    obtain ⟨⟨known, _⟩, replayed⟩ := replay_cons_eq_some.mp replayed
    rw [declared, ← List.append_assoc]
    exact ih (since.apply known) replayed

/-- A type that is there after a number of operations, and was not before, was started by one of
them. -/
theorem exists_since_of_replay {r r' : Registry} {t : Ty} {edits : List Edit}
    (replayed : r.replay edits = some r') (unknown : r.knows t = false)
    (known : r'.knows t = true) :
    ∃ (r₀ : Registry) (base? : Option Ty), r₀.Since t base? (r.declared t edits) r' := by
  induction edits generalizing r with
  | nil =>
    cases replayed
    rw [unknown] at known
    cases known
  | cons e rest ih =>
    obtain ⟨⟨mentions, _⟩, replayed⟩ := replay_cons_eq_some.mp replayed
    rw [declared, Edit.declared_eq_nil mentions unknown, List.nil_append]
    cases now : (e.apply r).knows t with
    | false => exact ih replayed now
    | true =>
      rcases Edit.knows_apply now with before | ⟨base?, starts⟩
      · rw [unknown] at before
        cases before
      · have accepted : e.rejected r = false := by
          cases e with
          | finish u => cases starts
          | _ => rfl
        exact ⟨r, base?, (Since.start e ⟨mentions, accepted⟩ starts).replay replayed⟩

/-- Whether `t` has these members and no others, those of one kind in the order of the list. -/
structure Lists (r : Registry) (t : Ty) (ms : List Member) : Prop where
  fields : r.fields t = ms.filterMap Member.field?
  constructors : r.constructors t = ms.filterMap Member.constructor?
  methods : r.methods t = ms.filterMap Member.method?
  properties : r.properties t = ms.filterMap Member.property?

theorem lists_nil {r : Registry} {t : Ty} (unfinished : r.isFinished t = false) :
    r.Lists t [] := by
  have none : r.members t = {} := by
    rw [isFinished, Option.isSome_eq_false_iff, Option.isNone_iff_eq_none] at unfinished
    rw [members, unfinished]
    rfl
  exact ⟨congrArg Members.fields none, congrArg Members.constructors none,
    congrArg Members.methods none, congrArg Members.properties none⟩

/-- A finished type has the members that have been declared on it, in their order. -/
theorem lists_declared {r : Registry} {t : Ty} {edits : List Edit}
    (replayed : Registry.replay {} edits = some r) (finished : r.Finished t) :
    r.Lists t (Registry.declared t {} edits) := by
  obtain ⟨id, d, m, found, rfl, definition, installed⟩ := finished.exists_decl
  have table : r.members? (d.typeAt id) = some m := by
    rw [members?, decl?_typeAt found]
    exact TypeDecl.members?_eq_some.mpr definition
  have unknown : ({} : Registry).knows (d.typeAt id) = false := by simp [knows, d.id?_typeAt]
  obtain ⟨r₀, base?, since⟩ := exists_since_of_replay replayed unknown finished.1
  have drafted := since.tables table
  rw [Draft.foldl_declare] at drafted
  rw [drafted] at installed
  exact ⟨congrArg Members.fields installed, congrArg Members.constructors installed,
    congrArg Members.methods installed, congrArg Members.properties installed⟩

end Registry

end MemberAccess
