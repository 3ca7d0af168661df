import Mathlib.Data.List.Basic
import MemberAccess.Proofs.Histories
import MemberAccess.Proofs.Lineages
import MemberAccess.Workspace

/-!
Finishing a definition. What is accepted depends on the history of the type: a class has to derive
from `Object` or from a class that was finished when the class itself was started, and a value type
must not hold value types that are unfinished now. Finishing changes the one type or nothing.
-/

namespace MemberAccess

namespace Registry

/-- Whether a field takes up room for a value type that is not finished. -/
def Embeds (r : Registry) (f : Field) : Prop :=
  f.isStatic = false ∧ f.type.isStruct = true ∧ r.isFinished f.type = false

instance (r : Registry) (f : Field) : Decidable (r.Embeds f) :=
  inferInstanceAs (Decidable (_ ∧ _ ∧ _))

/-- Why `t` cannot be finished in `r` if it has been started in `r₀`, with `base?` as its base, and
has the given fields. -/
inductive Objection (r r₀ : Registry) (t : Ty) (base? : Option Ty) (fields : List Field) :
    DefinitionError → Prop
  | invalidBase {base : Ty} (derived : base? = some base) (notObject : base ≠ .object)
      (notClass : base.isClass = false) :
      Objection r r₀ t base? fields (.invalidBase (r.name t) (r.name base))
  | unfinishedBase {base : Ty} (derived : base? = some base) (isClass : base.isClass = true)
      (early : r₀.isFinished base = false) :
      Objection r r₀ t base? fields (.unfinishedBase (r.name t) (r.name base))
  | recursiveValueType {front back : List Field} {f : Field} (underived : base? = none)
      (split : fields = front ++ f :: back) (fit : ∀ g ∈ front, ¬ r.Embeds g)
      (embeds : r.Embeds f) :
      Objection r r₀ t base? fields (.recursiveValueType (r.name t) f.name)

theorem opensCycle_iff {r : Registry} {f : Field} : r.opensCycle f = true ↔ r.Embeds f := by
  simp [opensCycle, Embeds, and_assoc]

/-- The first field that a value type cannot have is what is objected to. -/
theorem objection_of_none_iff {r r₀ : Registry} {t : Ty} {fields : List Field}
    {e : DefinitionError} :
    r.Objection r₀ t none fields e ↔
      ∃ f, fields.find? r.opensCycle = some f ∧ .recursiveValueType (r.name t) f.name = e := by
  constructor
  · rintro (⟨derived, _, _⟩ | ⟨derived, _, _⟩ | @⟨front, back, f, _, split, fit, embeds⟩)
    · cases derived
    · cases derived
    · refine ⟨f, List.find?_eq_some_iff_append.mpr ?_, rfl⟩
      refine ⟨opensCycle_iff.mpr embeds, front, back, split, fun g mem => ?_⟩
      simpa using fun opens => fit g mem (opensCycle_iff.mp opens)
  · rintro ⟨f, found, rfl⟩
    obtain ⟨opens, front, back, split, fit⟩ := List.find?_eq_some_iff_append.mp found
    refine .recursiveValueType rfl split (fun g mem embeds => ?_) (opensCycle_iff.mp opens)
    simpa [opensCycle_iff.mpr embeds] using fit g mem

/-- A class can be refused for its base only. -/
theorem objection_of_some_iff {r r₀ : Registry} {t base : Ty} {fields : List Field}
    {e : DefinitionError} :
    r.Objection r₀ t (some base) fields e ↔
      (base ≠ .object ∧ base.isClass = false ∧ .invalidBase (r.name t) (r.name base) = e) ∨
        (base.isClass = true ∧ r₀.isFinished base = false ∧
          .unfinishedBase (r.name t) (r.name base) = e) := by
  constructor
  · rintro (⟨derived, notObject, notClass⟩ | ⟨derived, isClass, early⟩ | ⟨underived, _, _, _⟩)
    · cases derived
      exact .inl ⟨notObject, notClass, rfl⟩
    · cases derived
      exact .inr ⟨isClass, early, rfl⟩
    · cases underived
  · rintro (⟨notObject, notClass, rfl⟩ | ⟨isClass, early, rfl⟩)
    · exact .invalidBase rfl notObject notClass
    · exact .unfinishedBase rfl isClass early

theorem not_objection_iff {r r₀ : Registry} {t : Ty} {base? : Option Ty} {fields : List Field} :
    (∀ e, ¬ r.Objection r₀ t base? fields e) ↔
      (base? = none ∧ ∀ f ∈ fields, ¬ r.Embeds f) ∨
        ∃ base, base? = some base ∧
          (base = .object ∨ base.isClass = true ∧ r₀.isFinished base = true) := by
  cases base? with
  | none =>
    have found : (∃ e, r.Objection r₀ t none fields e) ↔ ∃ f ∈ fields, r.Embeds f := by
      constructor
      · rintro ⟨e, objection⟩
        obtain ⟨f, found, _⟩ := objection_of_none_iff.mp objection
        exact ⟨f, List.mem_of_find?_eq_some found, opensCycle_iff.mp (List.find?_some found)⟩
      · rintro ⟨f, mem, embeds⟩
        have some := List.find?_isSome.mpr ⟨f, mem, opensCycle_iff.mpr embeds⟩
        obtain ⟨g, found⟩ := Option.isSome_iff_exists.mp some
        exact ⟨_, objection_of_none_iff.mpr ⟨g, found, rfl⟩⟩
    simpa using not_congr found
  | some base =>
    simp only [objection_of_some_iff]
    cases isClass : base.isClass <;> cases early : r₀.isFinished base <;>
      by_cases top : base = .object <;> simp_all [Ty.isClass]

namespace Since

variable {r₀ r : Registry} {t : Ty} {base? : Option Ty} {ms : List Member}
  (since : r₀.Since t base? ms r) {x : Draft} (opened : r.draft? t = some x)

include since opened

theorem rejection?_eq_some_iff {e : DefinitionError} :
    r.rejection? t x = some e ↔ r.Objection r₀ t base? (ms.filterMap Member.field?) e := by
  have drafted := (since.draft opened).trans (Draft.foldl_declare _ ms)
  rw [rejection?, since.base, drafted]
  cases base? with
  | none =>
    rw [objection_of_none_iff, ← Option.map_eq_some_iff]
    rfl
  | some base =>
    rw [objection_of_some_iff]
    by_cases top : base = .object
    · subst top
      simp [Draft.start, Ty.isClass]
    · cases isClass : base.isClass <;> cases early : r₀.isFinished base <;>
        simp [Draft.start, top, isClass, early]

theorem isStruct_iff : t.isStruct = true ↔ base? = none := by
  obtain ⟨id, d, found, rfl, _⟩ := exists_of_draft? since.knows opened
  have lineage := (lineage_typeAt found).symm.trans since.lineage
  unfold TypeDecl.typeAt
  cases base? <;> simp [lineage, Ty.isStruct, chain]

/-- What can be finished is a value type without value types that are still unfinished, or a class
whose base could be derived from when the class was started. -/
theorem rejection?_eq_none_iff :
    r.rejection? t x = none ↔
      (t.isStruct = true ∧ ∀ f ∈ ms.filterMap Member.field?, ¬ r.Embeds f) ∨
        ∃ base, base? = some base ∧
          (base = .object ∨ base.isClass = true ∧ r₀.isFinished base = true) := by
  rw [Option.eq_none_iff_forall_ne_some, since.isStruct_iff opened, ← not_objection_iff]
  exact forall_congr' fun e => not_congr (since.rejection?_eq_some_iff opened)

end Since

/-- Whether `r'` is `r` with `t` finished as a type with the members `ms`. Other types are what they
were; only what derives from `t` may find members that it did not find before. -/
structure Completes (r : Registry) (t : Ty) (ms : List Member) (r' : Registry) : Prop where
  finished : r'.isFinished t = true
  fields : r'.fields t = ms.filterMap Member.field?
  constructors : r'.constructors t = ms.filterMap Member.constructor?
  methods : r'.methods t = ms.filterMap Member.method?
  properties : r'.properties t = ms.filterMap Member.property?
  chain : r'.chain t = r.chain t
  others : ∀ u, r.knows u = true → u ≠ t → r'.decl? u = r.decl? u
  lookups : ∀ u, r.knows u = true → t ∉ r.chain u → ∀ (α : Type) (find : Members → Option α),
    r'.search u find = r.search u find

section

variable {r : Registry} {t : Ty} {x : Draft} (opened : r.draft? t = some x)

include opened

theorem finish_eq_error_iff {e : DefinitionError} :
    r.finish t = some (.error e) ↔ r.rejection? t x = some e := by
  rw [finish, opened, Option.map_some]
  cases r.rejection? t x <;> simp

theorem finish_eq_ok_iff {r' : Registry} :
    r.finish t = some (.ok r') ↔
      r.rejection? t x = none ∧ r' = r.setDefinition t (.finished x.members) := by
  rw [finish, opened, Option.map_some]
  cases r.rejection? t x <;> simp [eq_comm]

end

/-- The tables that are installed are those of the draft, and what else there is stays. -/
theorem Since.completes {r₀ r : Registry} {t : Ty} {base? : Option Ty} {ms : List Member}
    (since : r₀.Since t base? ms r) {x : Draft} (opened : r.draft? t = some x) (sound : r.Sound) :
    r.Completes t ms (r.setDefinition t (.finished x.members)) := by
  have grows : r.Grows (r.setDefinition t (.finished x.members)) :=
    grows_setDefinition opened _ fun d => List.prefix_rfl
  have others (u : Ty) (known : r.knows u = true) (other : u ≠ t) :=
    decl?_setDefinition_of_ne since.knows known other (.finished x.members)
  have table := members?_setDefinition opened x.members
  have installed : (r.setDefinition t (.finished x.members)).members t = x.members := by
    rw [members, table]
    rfl
  have drafted := (since.draft opened).trans (Draft.foldl_declare _ ms)
  subst drafted
  refine ⟨Option.isSome_iff_exists.mpr ⟨_, table⟩, congrArg Members.fields installed,
    congrArg Members.constructors installed, congrArg Members.methods installed,
    congrArg Members.properties installed, grows.chain since.knows, others,
    fun u known apart α find => ?lookups⟩
  case lookups =>
    rw [search, search, grows.chain known, ← List.head?_filterMap, ← List.head?_filterMap]
    refine congrArg List.head? (List.filterMap_congr fun s mem => ?_)
    have other : s ≠ t := fun same => apart (same ▸ mem)
    rw [members?, members?, others s (sound.knows_of_mem_chain known mem) other]

end Registry

namespace Work

theorem run_bind_ok {x : Work α} {a : α} {w w' : Workspace} (ran : ExceptT.run x w = (.ok a, w'))
    (f : α → Work β) : ExceptT.run (x >>= f) w = ExceptT.run (f a) w' := by
  rw [ExceptT.run_bind]
  change (StateT.bind _ _) w = _
  unfold StateT.bind
  rw [ran]
  rfl

theorem run_draft {w : Workspace} {name : String} {t : Ty}
    (opened : w.items[name]? = some (.draft t)) : ExceptT.run (draft name) w = (.ok t, w) := by
  have got : ExceptT.run (get : Work Workspace) w = (.ok w, w) := rfl
  have looked : ExceptT.run (lookup name) w = (.ok (.draft t), w) := by
    rw [lookup, run_bind_ok got, opened]
    rfl
  rw [draft, run_bind_ok looked]
  rfl

section

variable {w : Workspace} {name : String} {t : Ty} (opened : w.items[name]? = some (.draft t))

include opened

/-- Finishing closes the definition before it looks at it. -/
theorem run_finish {result : Except DefinitionError Registry}
    (finished : w.host.registry.finish t = some result) :
    ExceptT.run (finish name) w =
      ExceptT.run (do
        let h ← ofExcept .definition (result.map fun r => { w.host with registry := r })
        modify ({ · with host := h })
        report [Event.typeDefined h.registry t]
        return t) { w with items := w.items.insert name (.type t) } := by
  have named : ExceptT.run (Work.name name (.type t)) w =
      (.ok (), { w with items := w.items.insert name (.type t) }) := rfl
  have got (w : Workspace) : ExceptT.run (get : Work Workspace) w = (.ok w, w) := rfl
  rw [finish, run_bind_ok (run_draft opened), run_bind_ok named, run_bind_ok (got _)]
  simp only [Host.finish, finished, Option.map_some]

theorem run_finish_error {e : DefinitionError}
    (refused : w.host.registry.finish t = some (.error e)) :
    ExceptT.run (finish name) w =
      (.error (.definition e), { w with items := w.items.insert name (.type t) }) := by
  rw [run_finish opened refused]
  rfl

theorem run_finish_ok {r : Registry} (accepted : w.host.registry.finish t = some (.ok r)) :
    ExceptT.run (finish name) w =
      (.ok t, { w with
        items := w.items.insert name (.type t)
        host := { w.host with registry := r }
        events := w.events ++ #[Event.typeDefined r t] }) := by
  rw [run_finish opened accepted]
  rfl

end

end Work

namespace Registry

/-- However definitions are interleaved, every open one has a history, which decides whether it can
be finished: it has to be a value type without instance fields of unfinished value types, or a class
over `Object` or over a class that was finished when it was started itself. The objection to any
other definition is the one that its history gives; it closes the definition and changes nothing
else. A definition that is finished has the members that have been declared, in their order, and no
other type is changed by it. -/
theorem finish_follows_history {r : Registry} (reached : Reaches {} r) {t : Ty}
    (known : r.knows t = true) {x : Draft} (opened : r.draft? t = some x) :
    (∃ r₀ base? ms, Reaches {} r₀ ∧ r₀.Since t base? ms r) ∧
      ∀ r₀ base? ms, r₀.Since t base? ms r →
        ((∃ r', r.finish t = some (.ok r')) ↔
          (t.isStruct = true ∧ ∀ f ∈ ms.filterMap Member.field?, ¬ r.Embeds f) ∨
            ∃ base, base? = some base ∧
              (base = .object ∨ base.isClass = true ∧ r₀.isFinished base = true)) ∧
        (∀ e, r.finish t = some (.error e) ↔
          r.Objection r₀ t base? (ms.filterMap Member.field?) e) ∧
        (∀ e, r.finish t = some (.error e) → (Edit.finish t).apply r = r ∧
          ∀ (w : Workspace) name, w.host.registry = r → w.items[name]? = some (.draft t) →
            ExceptT.run (Work.finish name) w =
              (.error (.definition e), { w with items := w.items.insert name (.type t) })) ∧
        ∀ r', r.finish t = some (.ok r') →
          (Edit.finish t).apply r = r' ∧ r.Completes t ms r' ∧
          ∀ (w : Workspace) name, w.host.registry = r → w.items[name]? = some (.draft t) →
            ExceptT.run (Work.finish name) w =
              (.ok t, { w with
                items := w.items.insert name (.type t)
                host := { w.host with registry := r' }
                events := w.events ++ #[Event.typeDefined r' t] }) := by
  have userDefined : t.id?.isSome = true := by
    obtain ⟨id, d, found, rfl, _⟩ := exists_of_draft? known opened
    rw [d.id?_typeAt]
    rfl
  refine ⟨exists_since reached known userDefined, fun r₀ base? ms since => ?_⟩
  refine ⟨?accepted, fun e => ?objection, fun e refused => ?refused, fun r' finished => ?finished⟩
  case accepted =>
    rw [← since.rejection?_eq_none_iff opened]
    simp [finish_eq_ok_iff opened]
  case objection =>
    rw [finish_eq_error_iff opened]
    exact since.rejection?_eq_some_iff opened
  case refused =>
    refine ⟨?_, fun w name same item => ?_⟩
    · rw [Edit.apply, refused]
      rfl
    · exact Work.run_finish_error item (same ▸ refused)
  case finished =>
    refine ⟨?_, ?_, fun w name same item => ?_⟩
    · rw [Edit.apply, finished]
      rfl
    · obtain ⟨_, rfl⟩ := (finish_eq_ok_iff opened).mp finished
      exact since.completes opened (sound_of_reaches reached)
    · exact Work.run_finish_ok item (same ▸ finished)

end Registry

/-! Two classes derive from a third, which is finished after the first of them has been started and
before the second is. A value type holds itself twice, after a static field of its own type. -/

namespace Sketch

def base : Ty := .classType 0
def early : Ty := .classType 1
def late : Ty := .classType 2
def loop : Ty := .structType 3

def size : Field := ⟨late, 0, "Size", .int32, false, false, .slot 0⟩
def reset : Method := ⟨late, 0, "Reset", [], .void, {}⟩
def shared : Field := ⟨loop, 0, "Shared", loop, false, false, .static⟩
def inner : Field := ⟨loop, 1, "Inner", loop, false, false, .slot 0⟩
def outer : Field := ⟨loop, 2, "Outer", loop, false, false, .slot 1⟩

def edits : List Edit :=
  [.startClass "Base", .startDerived "Early" base, .finish base, .startDerived "Late" base,
    .addField late "Size" .int32 {}, .startStruct "Loop", .addMethod late "Reset" [] .void {},
    .addField loop "Shared" loop { isStatic := true }, .addField loop "Inner" loop {},
    .addField loop "Outer" loop {}]

/-- The registry after the first edits. -/
def after (count : Nat) : Registry := (edits.take count).foldl Edit.apply {}

def registry : Registry :=
  { types := #[
      ⟨"Base", [.object], .finished (Draft.members {})⟩,
      ⟨"Early", [base, .object], .draft { baseReady := false }⟩,
      ⟨"Late", [base, .object], .draft
        { fields := [size], methods := [reset], layout := [.int32] }⟩,
      ⟨"Loop", [], .draft { fields := [shared, inner, outer], layout := [loop, loop] }⟩] }

theorem replay_edits : Registry.replay {} edits = some registry := rfl

theorem since_early : (after 1).Since early (some base) [] registry := by
  have replayed : (after 2).replay (edits.drop 2) = some registry := rfl
  exact (Registry.Since.start (.startDerived "Early" base) (by decide) rfl).replay replayed

theorem since_late : (after 3).Since late (some base) [.field size, .method reset] registry := by
  have replayed : (after 4).replay (edits.drop 4) = some registry := rfl
  exact (Registry.Since.start (.startDerived "Late" base) (by decide) rfl).replay replayed

theorem since_loop :
    (after 5).Since loop none [.field shared, .field inner, .field outer] registry := by
  have replayed : (after 6).replay (edits.drop 6) = some registry := rfl
  exact (Registry.Since.start (.startStruct "Loop") (by decide) rfl).replay replayed

end Sketch

/-- The base of the early class is finished by now, which comes too late for it. -/
theorem Registry.finish_follows_history_sketch :
    Reaches {} Sketch.registry ∧ Sketch.registry.isFinished Sketch.base = true ∧
      Sketch.registry.finish Sketch.early = some (.error (.unfinishedBase "Early" "Base")) ∧
      Sketch.registry.finish Sketch.loop = some (.error (.recursiveValueType "Loop" "Inner")) ∧
      ∃ r', Sketch.registry.finish Sketch.late = some (.ok r') ∧
        Sketch.registry.Completes Sketch.late [.field Sketch.size, .method Sketch.reset] r' := by
  have reached := reaches_of_replay Sketch.replay_edits
  refine ⟨reached, rfl, ?early, ?loop, ?late⟩
  case early =>
    have known : Sketch.registry.knows Sketch.early = true := by decide
    obtain ⟨_, history⟩ := finish_follows_history reached known rfl
    obtain ⟨_, objection, _⟩ := history _ _ _ Sketch.since_early
    exact (objection _).mpr (.unfinishedBase rfl rfl rfl)
  case loop =>
    have known : Sketch.registry.knows Sketch.loop = true := by decide
    obtain ⟨_, history⟩ := finish_follows_history reached known rfl
    obtain ⟨_, objection, _⟩ := history _ _ _ Sketch.since_loop
    have split : [Sketch.shared, Sketch.inner, Sketch.outer] =
        [Sketch.shared] ++ Sketch.inner :: [Sketch.outer] := rfl
    exact (objection _).mpr (.recursiveValueType rfl split (by decide) (by decide))
  case late =>
    have known : Sketch.registry.knows Sketch.late = true := by decide
    obtain ⟨_, history⟩ := finish_follows_history reached known rfl
    obtain ⟨accepted, _, _, finished⟩ := history _ _ _ Sketch.since_late
    obtain ⟨r', same⟩ := accepted.mpr (.inr ⟨Sketch.base, rfl, .inr ⟨rfl, rfl⟩⟩)
    exact ⟨r', same, (finished r' same).2.1⟩

end MemberAccess
