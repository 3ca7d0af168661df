import Mathlib.Data.List.Induction
import MemberAccess.Proofs.Assembling
import MemberAccess.Proofs.Encodings

/-!
Misuse of directives. Locals are declared once, and no more of them than an index can name; the
first declaration that breaks this is what an assembly reports, whatever stands around it. Otherwise
an assembly is the body that has the declared locals, wherever they were declared, and the code of
the directives in order.
-/

namespace MemberAccess.Code

/-- The locals that a directive declares. -/
def Directive.locals : Directive → List Ty
  | declareLocals types => types
  | _ => []

/-- What is wrong with a directive that comes after others. -/
inductive Misuse (before : List Directive) : Directive → BodyError → Prop
  | redeclared {types : List Ty} (again : before.any Directive.declares = true) :
      Misuse before (.declareLocals types) .localsRedeclared
  | tooMany {types : List Ty} (first : before.any Directive.declares = false)
      (many : Body.maxLocals < types.length) :
      Misuse before (.declareLocals types) (.tooManyLocals (Body.maxLocals + 1))

/-- Whether no directive is misused. -/
def Orderly (ds : List Directive) : Prop :=
  ∀ before d after e, ds = before ++ d :: after → ¬ Misuse before d e

theorem orderly_nil : Orderly [] := by
  intro before d after e split
  simp at split

theorem orderly_concat {ds : List Directive} {d : Directive} :
    Orderly (ds ++ [d]) ↔ Orderly ds ∧ ∀ e, ¬ Misuse ds d e := by
  constructor
  · intro orderly
    refine ⟨fun before d' after e split => ?_, fun e => orderly ds d [] e rfl⟩
    exact orderly before d' (after ++ [d]) e (by simp [split])
  · rintro ⟨orderly, last⟩ before d' after e split
    cases after using List.reverseRecOn with
    | nil =>
      obtain ⟨rfl, ends⟩ := List.append_inj' split rfl
      cases ends
      exact last e
    | append_singleton after d'' =>
      have assoc : ds ++ [d] = (before ++ d' :: after) ++ [d''] := by simp [split]
      exact orderly before d' after e (List.append_inj' assoc rfl).1

theorem exists_of_declares {d : Directive} (declares : d.declares = true) :
    ∃ types, d = .declareLocals types := by
  cases d with
  | declareLocals types => exact ⟨types, rfl⟩
  | _ => cases declares

theorem locals_of_not_declares {d : Directive} (emits : d.declares = false) : d.locals = [] := by
  cases d with
  | declareLocals types => cases emits
  | _ => rfl

theorem flatMap_locals {ds : List Directive} (undeclared : ds.any Directive.declares = false) :
    ds.flatMap Directive.locals = [] := by
  rw [List.flatMap_eq_nil_iff]
  intro d mem
  exact locals_of_not_declares (Bool.eq_false_iff.mpr (List.any_eq_false.mp undeclared d mem))

/-- Only declarations can be misused. -/
theorem not_misuse_of_emits {before : List Directive} {d : Directive} (emits : d.declares = false)
    (e : BodyError) : ¬ Misuse before d e := by
  rintro (_ | _) <;> cases emits

theorem not_misuse_iff {before : List Directive} {types : List Ty} :
    (∀ e, ¬ Misuse before (.declareLocals types) e) ↔
      before.any Directive.declares = false ∧ types.length ≤ Body.maxLocals := by
  constructor
  · intro proper
    have first : before.any Directive.declares = false :=
      Bool.eq_false_iff.mpr fun again => proper _ (.redeclared again)
    exact ⟨first, Nat.not_lt.mp fun many => proper _ (.tooMany first many)⟩
  · rintro ⟨first, few⟩ e (again | ⟨_, many⟩)
    · exact Bool.eq_false_iff.mp first again
    · exact absurd many (Nat.not_lt.mpr few)

/-- Orderly directives declare at most once, and no more locals than can be named. -/
theorem orderly_iff {ds : List Directive} :
    Orderly ds ↔ ds.countP Directive.declares ≤ 1 ∧
      (ds.flatMap Directive.locals).length ≤ Body.maxLocals := by
  induction ds using List.reverseRecOn with
  | nil => simp [orderly_nil]
  | append_singleton ds d ih =>
    rw [orderly_concat, ih, List.countP_append, List.flatMap_append]
    cases emits : d.declares with
    | false => simp [emits, locals_of_not_declares, not_misuse_of_emits]
    | true =>
      obtain ⟨types, rfl⟩ := exists_of_declares emits
      have undeclared : ds.countP Directive.declares = 0 ↔ ds.any Directive.declares = false := by
        rw [List.countP_eq_zero, List.any_eq_false]
      rw [not_misuse_iff, ← undeclared, List.countP_singleton, if_pos emits, List.flatMap_singleton]
      constructor
      · rintro ⟨_, first, few⟩
        rw [first, flatMap_locals (undeclared.mp first)]
        exact ⟨Nat.le_refl 1, few⟩
      · rintro ⟨once, few⟩
        have first : ds.countP Directive.declares = 0 := by omega
        rw [flatMap_locals (undeclared.mp first)] at few ⊢
        rw [first]
        exact ⟨⟨Nat.zero_le 1, Nat.zero_le _⟩, rfl, few⟩

instance (ds : List Directive) : Decidable (Orderly ds) :=
  decidable_of_iff _ orderly_iff.symm

/-- Where directives are misused, one is misused first. -/
theorem exists_misuse {ds : List Directive} (disorderly : ¬ Orderly ds) :
    ∃ before d after e, ds = before ++ d :: after ∧ Orderly before ∧ Misuse before d e := by
  induction ds using List.reverseRecOn with
  | nil => exact absurd orderly_nil disorderly
  | append_singleton ds d ih =>
    by_cases orderly : Orderly ds
    · by_cases misused : ∃ e, Misuse ds d e
      · obtain ⟨e, misused⟩ := misused
        exact ⟨ds, d, [], e, rfl, orderly, misused⟩
      · exact absurd (orderly_concat.mpr ⟨orderly, not_exists.mp misused⟩) disorderly
    · obtain ⟨before, d', after, e, rfl, first⟩ := ih orderly
      exact ⟨before, d', after ++ [d], e, by simp, first⟩

namespace Assembly

/-- The first defect stays. -/
theorem defect_add {a : Assembly} {e : BodyError} (found : a.defect? = some e) (d : Directive) :
    (a.add d).defect? = some e := by
  cases d with
  | declareLocals types =>
    simp only [add, declareLocals, declareAll, record]
    split
    · simp [found]
    · split <;> simp [found]
  | _ => exact found

theorem defect_foldl_add {a : Assembly} {e : BodyError} (found : a.defect? = some e)
    (ds : List Directive) : (ds.foldl add a).defect? = some e := by
  induction ds generalizing a with
  | nil => exact found
  | cons d rest ih => exact ih (defect_add found d)

/-- Orderly directives leave the locals and the code, and nothing else. -/
theorem ofDirectives_of_orderly (name : String) (signature : Signature) {ds : List Directive}
    (orderly : Orderly ds) :
    ofDirectives name signature ds =
      { body := { name, signature, locals := (ds.flatMap Directive.locals).toArray,
                  code := (ds.flatMap Directive.code).toArray }
        localsDeclared := ds.any Directive.declares } := by
  induction ds using List.reverseRecOn with
  | nil => rfl
  | append_singleton ds d ih =>
    obtain ⟨before, last⟩ := orderly_concat.mp orderly
    have added : ofDirectives name signature (ds ++ [d]) = (ofDirectives name signature ds).add d :=
      List.foldl_append ..
    rw [added, ih before]
    cases emits : d.declares with
    | false =>
      rw [add_of_not_declares _ emits]
      simp [emits, locals_of_not_declares emits]
    | true =>
      obtain ⟨types, rfl⟩ := exists_of_declares emits
      obtain ⟨first, few⟩ := not_misuse_iff.mp last
      simp [add, declareLocals, declareAll, first, few, flatMap_locals first,
        List.take_of_length_le few, Directive.locals, Directive.code, Directive.declares]

/-- The defect of the first misuse is recorded where it happens. -/
theorem defect_of_misuse (name : String) (signature : Signature) {before : List Directive}
    {d : Directive} {e : BodyError} (orderly : Orderly before) (misused : Misuse before d e) :
    ((ofDirectives name signature before).add d).defect? = some e := by
  rw [ofDirectives_of_orderly name signature orderly]
  cases misused with
  | redeclared again => simp [add, declareLocals, again, record]
  | tooMany first many =>
    simp [add, declareLocals, declareAll, first, flatMap_locals first, record,
      Nat.not_le.mpr many]

theorem toRoutine_of_defect {a : Assembly} {e : BodyError} (found : a.defect? = some e) :
    a.toRoutine = .error e := by
  rw [toRoutine, found]

end Assembly

namespace Body

/-- A body with the given locals, declared one by one, and the given code. -/
def build (name : String) (signature : Signature) (types : List Ty) (code : List Instr) :
    Except BodyError Body := do
  let b ← types.foldlM (fun b t => return (← addLocal b t).1) { name, signature }
  return code.foldl push b

theorem foldlM_addLocal {b : Body} {types : List Ty}
    (few : b.locals.size + types.length ≤ maxLocals) :
    types.foldlM (fun b t => return (← addLocal b t).1) b =
      (.ok { b with locals := b.locals ++ types.toArray } : Except BodyError Body) := by
  induction types generalizing b with
  | nil => simp [pure, Except.pure]
  | cons t rest ih =>
    rw [List.length_cons] at few
    have added : addLocal b t = .ok ({ b with locals := b.locals.push t }, b.locals.size) :=
      if_pos (by omega)
    have room : (b.locals.push t).size + rest.length ≤ maxLocals := by
      rw [Array.size_push]
      omega
    have later := ih (b := { b with locals := b.locals.push t }) room
    rw [List.foldlM_cons, added]
    exact later.trans (by simp)

theorem build_eq_ok (name : String) (signature : Signature) {types : List Ty} (code : List Instr)
    (few : types.length ≤ maxLocals) :
    build name signature types code =
      .ok { name, signature, locals := types.toArray, code := code.toArray } := by
  have room : (#[] : Array Ty).size + types.length ≤ maxLocals := by simpa using few
  have declared := foldlM_addLocal (b := { name, signature }) room
  rw [build, declared]
  simp [foldl_push, bind, Except.bind, pure, Except.pure]

end Body

/-- Directives emit their instructions in the forms that are selected. -/
theorem Directive.shortest_of_mem_code {d : Directive} {i : Instr} (mem : i ∈ d.code) :
    i.shortest = i := by
  have selected (x : UInt16) : (Index.select x).value = x := by
    simp [Index.value]
  cases d with
  | declareLocals types => cases mem
  | loadArgument x | loadLocal x | storeLocal x =>
    obtain rfl := List.mem_singleton.mp mem
    simp only [Instr.loadArgument, Instr.loadLocal, Instr.storeLocal, Instr.shortest, selected]
  | loadConstant n =>
    obtain rfl := List.mem_singleton.mp mem
    simp [Instr.loadConstant, Instr.shortest]
  | coerce t =>
    obtain rfl := List.mem_singleton.mp mem
    unfold Instr.coerce
    split <;> rfl
  | boxIfValueType t =>
    simp only [code, Instr.boxValue] at mem
    split at mem
    · obtain rfl := List.mem_singleton.mp mem
      rfl
    · cases mem
  | call m =>
    obtain rfl := List.mem_singleton.mp mem
    unfold Instr.callMethod
    split <;> rfl
  | _ =>
    obtain rfl := List.mem_singleton.mp mem
    rfl

namespace Assembly

end Assembly

end MemberAccess.Code
