import MemberAccess.Host
import MemberAccess.Proofs.Layouts

/-!
Hosts that grow. Types are defined together with the bodies of their members, any number of them at
once; once a type is finished, every later host has its bodies as they are, as the registry has its
member tables.
-/

namespace MemberAccess

namespace Registry

theorem size_setDefinition (r : Registry) (t : Ty) (y : Definition) :
    (r.setDefinition t y).types.size = r.types.size := by
  unfold setDefinition
  cases t.id? with
  | none => rfl
  | some id => exact Array.size_modify

/-- A position holds a draft or a finished type, not both. -/
theorem id?_ne_of_draft {r : Registry} {t u : Ty} {x : Draft} (opened : r.draft? t = some x)
    (finished : r.isFinished u = true) : t.id? ≠ u.id? := by
  intro same
  obtain ⟨m, table⟩ := Option.isSome_iff_exists.mp finished
  have drafted : r.draft? u = r.draft? t := by rw [draft?, draft?, decl?, decl?, same]
  rw [draft?_of_members? table, opened] at drafted
  cases drafted

end Registry

namespace Host

/-- Whether one operation that is not refused makes `h'` of `h`. -/
inductive Defines (h : Host) : Host → Prop
  | startClass (name : String) : Defines h (h.startClass name).1
  | startDerived (name : String) (base : Ty) : Defines h (h.startDerived name base).1
  | startStruct (name : String) : Defines h (h.startStruct name).1
  | addField {t type : Ty} {name : String} {flags : Flags} {h' : Host} {f : Field}
      (added : h.addField t name type flags = some (h', f)) : Defines h h'
  | addConstructor {t : Ty} {params : List Param} {flags : Flags} {body : MemberBody} {h' : Host}
      {c : Constructor} (added : h.addConstructor t params flags body = some (h', c)) : Defines h h'
  | addMethod {t returns : Ty} {name : String} {params : List Param} {flags : Flags}
      {body : MemberBody} {h' : Host} {m : Method}
      (added : h.addMethod t name params returns flags body = some (h', m)) : Defines h h'
  | addProperty {t type : Ty} {name : String} {index : List Param}
      {getter? setter? : Option Method} {h' : Host} {q : Property}
      (added : h.addProperty t name type index getter? setter? = some (h', q)) : Defines h h'
  | finish {t : Ty} {h' : Host} (finished : h.finish t = some (.ok h')) : Defines h h'

inductive Reaches (h : Host) : Host → Prop
  | refl : Reaches h h
  | step {h' h'' : Host} (first : Reaches h h') (next : h'.Defines h'') : Reaches h h''

/-- All that an operation can do to a host: it starts a type, or adds to a draft or finishes it, and
then it touches no bodies but those of the draft. -/
inductive Change (h : Host) : Host → Prop
  | starts (d : TypeDecl) : Change h ⟨h.registry.addDecl d, h.bodies.push {}⟩
  | defines (t : Ty) (x : Draft) (y : Definition) (bodies : Array TypeBodies)
      (opened : h.registry.draft? t = some x)
      (fields : ∀ d : TypeDecl, x.fields <+: TypeDecl.fields { d with definition := y })
      (size : bodies.size = h.bodies.size)
      (others : ∀ id, t.id? ≠ some id → bodies[id]? = h.bodies[id]?) :
      Change h ⟨h.registry.setDefinition t y, bodies⟩

/-- Giving the draft of a type one more body is a change. -/
theorem Change.modifyBodies {h : Host} {t : Ty} {x y : Draft}
    (opened : h.registry.draft? t = some x) (fields : y.fields = x.fields)
    (f : TypeBodies → TypeBodies) : h.Change (h.modifyBodies (h.registry.setDraft t y) t f) := by
  refine .defines t x (.draft y) _ opened (fun _ => fields ▸ List.prefix_rfl) ?_ fun id other => ?_
  · cases t.id? with
    | none => rfl
    | some id => exact Array.size_modify
  · cases declared : t.id? with
    | none => rfl
    | some i =>
      rw [declared] at other
      exact (Array.getElem?_modify ..).trans (if_neg fun same => other (congrArg some same))

theorem Defines.change {h h' : Host} (defines : h.Defines h') : h.Change h' := by
  cases defines with
  | startClass name => exact .starts _
  | startDerived name base => exact .starts _
  | startStruct name => exact .starts _
  | @addField t type name flags _ f added =>
    obtain ⟨_, declared, same⟩ := Option.map_eq_some_iff.mp added
    obtain ⟨x, opened, rfl⟩ := Option.map_eq_some_iff.mp declared
    cases same
    exact .defines t x (.draft _) h.bodies opened (fun _ => List.prefix_append _ _) rfl
      fun _ _ => rfl
  | addConstructor added =>
    obtain ⟨_, declared, same⟩ := Option.map_eq_some_iff.mp added
    obtain ⟨x, opened, rfl⟩ := Option.map_eq_some_iff.mp declared
    cases same
    refine .modifyBodies opened ?_ _
    rfl
  | addMethod added =>
    obtain ⟨_, declared, same⟩ := Option.map_eq_some_iff.mp added
    obtain ⟨x, opened, rfl⟩ := Option.map_eq_some_iff.mp declared
    cases same
    refine .modifyBodies opened ?_ _
    rfl
  | @addProperty t _ _ _ _ _ _ q added =>
    obtain ⟨_, declared, same⟩ := Option.map_eq_some_iff.mp added
    obtain ⟨x, opened, rfl⟩ := Option.map_eq_some_iff.mp declared
    cases same
    exact .defines t x (.draft _) h.bodies opened (fun _ => List.prefix_rfl) rfl fun _ _ => rfl
  | @finish t _ finished =>
    obtain ⟨result, ended, same⟩ := Option.map_eq_some_iff.mp finished
    obtain ⟨x, opened, rfl⟩ := Option.map_eq_some_iff.mp ended
    cases rejected : h.registry.rejection? t x with
    | some e =>
      rw [rejected] at same
      cases same
    | none =>
      rw [rejected] at same
      cases same
      exact .defines t x (.finished x.members) h.bodies opened (fun _ => List.prefix_rfl) rfl
        fun _ _ => rfl

/-- Whether each type has its place among the bodies. -/
def Aligned (h : Host) : Prop :=
  h.bodies.size = h.registry.types.size

/-- What later hosts keep: all that the registry says, and the bodies of finished types. -/
structure Grows (h h' : Host) : Prop where
  registry : h.registry.Grows h'.registry
  bodiesOf : ∀ t, h.registry.isFinished t = true → h'.bodiesOf t = h.bodiesOf t

theorem Grows.refl (h : Host) : h.Grows h := ⟨.refl h.registry, fun _ _ => rfl⟩

theorem Grows.trans {h h' h'' : Host} (first : h.Grows h') (second : h'.Grows h'') :
    h.Grows h'' where
  registry := first.registry.trans second.registry
  bodiesOf t finished :=
    (second.bodiesOf t (first.registry.isFinished finished)).trans (first.bodiesOf t finished)

theorem bodiesOf_congr {h h' : Host} {t : Ty}
    (same : ∀ id, t.id? = some id → h'.bodies[id]? = h.bodies[id]?) :
    h'.bodiesOf t = h.bodiesOf t := by
  unfold Host.bodiesOf
  cases declared : t.id? with
  | none => rfl
  | some id => rw [Option.bind_some, Option.bind_some, same id declared]

theorem Change.aligned {h h' : Host} (change : h.Change h') (aligned : h.Aligned) :
    h'.Aligned := by
  cases change with
  | starts d =>
    show (h.bodies.push {}).size = (h.registry.types.push d).size
    rw [Array.size_push, Array.size_push, aligned]
  | defines t x y bodies opened fields size others =>
    exact size.trans (aligned.trans (h.registry.size_setDefinition t y).symm)

theorem Change.grows {h h' : Host} (change : h.Change h') (aligned : h.Aligned) : h.Grows h' := by
  cases change with
  | starts d =>
    refine ⟨Registry.grows_addDecl h.registry d, fun t finished =>
      bodiesOf_congr fun id declared => ?_⟩
    -- A finished type is there, so its place lies before the new one.
    obtain ⟨m, table⟩ := Option.isSome_iff_exists.mp finished
    obtain ⟨e, found, _⟩ := Option.bind_eq_some_iff.mp table
    rw [Registry.decl?, declared] at found
    obtain ⟨bound, _⟩ := Array.getElem?_eq_some_iff.mp found
    have before : id < h.bodies.size := aligned ▸ bound
    exact (Array.getElem?_push_lt before).trans (Array.getElem?_eq_getElem before).symm
  | defines t x y bodies opened fields size others =>
    refine ⟨Registry.grows_setDefinition opened y fields, fun u finished =>
      bodiesOf_congr fun id declared => others id fun same => ?_⟩
    exact Registry.id?_ne_of_draft opened finished (same.trans declared.symm)

/-- Whatever is defined later, a host that has been reached has what was there before. -/
theorem Reaches.grows {h h' : Host} (reached : h.Reaches h') (aligned : h.Aligned) :
    h'.Aligned ∧ h.Grows h' := by
  induction reached with
  | refl => exact ⟨aligned, .refl h⟩
  | step first next ih =>
    obtain ⟨aligned', grows⟩ := ih
    exact ⟨next.change.aligned aligned', grows.trans (next.change.grows aligned')⟩

end Host

end MemberAccess
