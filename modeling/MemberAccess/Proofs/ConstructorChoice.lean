import MemberAccess.Proofs.CallAgreement
import MemberAccess.Proofs.Histories
import MemberAccess.Proofs.Totality

/-!
The constructor that a façade is made for. The first constructor with the parameter types that are
asked for is looked at, and no other one: if it is not fit, there is no façade, even though a later
constructor with the same parameter types may be fit.
-/

namespace MemberAccess

open Invoker

/-- Whether every argument is passed by value. -/
def Constructor.ByValue (c : Constructor) : Prop := ∀ q ∈ c.params, q.byRef = false

namespace Registry

variable {r : Registry} {t : Ty} {types : List Ty} {c d : Constructor} {p : Constructor → Prop}

/-- Whether `c` is the first constructor of `t` with these parameter types. -/
def IsFirst (r : Registry) (t : Ty) (types : List Ty) (c : Constructor) : Prop :=
  ∃ front back, r.constructors t = front ++ c :: back ∧ c.params.map Param.type = types ∧
    ∀ d ∈ front, d.params.map Param.type ≠ types

theorem constructor?_eq_some_iff : r.constructor? t types = some c ↔ r.IsFirst t types c := by
  simp only [constructor?, List.find?_eq_some_iff_append, Param.matchTypes, beq_iff_eq,
    Bool.not_eq_true', beq_eq_false_iff_ne]
  constructor
  · rintro ⟨same, front, back, split, earlier⟩
    exact ⟨front, back, split, same, earlier⟩
  · rintro ⟨front, back, split, same, earlier⟩
    exact ⟨same, front, back, split, earlier⟩

theorem constructor?_eq_none_iff :
    r.constructor? t types = none ↔ ∀ c ∈ r.constructors t, c.params.map Param.type ≠ types := by
  simp [constructor?, Param.matchTypes]

namespace IsFirst

theorem mem (first : r.IsFirst t types c) : c ∈ r.constructors t := by
  obtain ⟨front, back, split, _⟩ := first
  rw [split]
  exact List.mem_append_right front List.mem_cons_self

theorem same (first : r.IsFirst t types c) : c.params.map Param.type = types := by
  obtain ⟨_, _, _, same, _⟩ := first
  exact same

theorem unique (first : r.IsFirst t types c) (first' : r.IsFirst t types d) : c = d := by
  rw [← constructor?_eq_some_iff] at first first'
  exact Option.some_inj.mp (first.symm.trans first')

theorem exists_of_mem (declared : c ∈ r.constructors t) (same : c.params.map Param.type = types) :
    ∃ d, r.IsFirst t types d := by
  cases found : r.constructor? t types with
  | none => exact absurd same (constructor?_eq_none_iff.mp found c declared)
  | some d => exact ⟨d, constructor?_eq_some_iff.mp found⟩

end IsFirst

/-- Whether `c` stands in front of `d`, as the first constructor with these parameter types, and
lacks what `d` has. -/
structure Hides (r : Registry) (t : Ty) (types : List Ty) (p : Constructor → Prop)
    (c d : Constructor) : Prop where
  first : r.IsFirst t types c
  lacks : ¬ p c
  declared : d ∈ r.constructors t
  same : d.params.map Param.type = types
  has : p d

theorem exists_isFirst_iff :
    (∃ c, r.IsFirst t types c ∧ p c) ↔
      (∃ c ∈ r.constructors t, c.params.map Param.type = types ∧ p c) ∧
        ¬ ∃ c d, r.Hides t types p c d := by
  constructor
  · rintro ⟨c, first, has⟩
    refine ⟨⟨c, first.mem, first.same, has⟩, ?_⟩
    rintro ⟨b, d, hides⟩
    exact hides.lacks (hides.first.unique first ▸ has)
  · rintro ⟨⟨d, declared, same, has⟩, visible⟩
    obtain ⟨c, first⟩ := IsFirst.exists_of_mem declared same
    by_cases fit : p c
    · exact ⟨c, first, fit⟩
    · exact absurd ⟨c, d, first, fit, declared, same, has⟩ visible

/-- A façade is made exactly if `t` has a constructor with these parameter types and `p` that is not
hidden by another one; it is then made for the first. -/
structure Picks (r : Registry) (t : Ty) (types : List Ty) (p : Constructor → Prop)
    (refuses : CompileError → Prop) (made : Except CompileError ConstructorFacade) : Prop where
  accepts : (∃ x, made = .ok x) ↔
    (∃ c ∈ r.constructors t, c.params.map Param.type = types ∧ p c) ∧
      ¬ ∃ c d, r.Hides t types p c d
  ok : ∀ x, made = .ok x → r.IsFirst t types x.constructor ∧ p x.constructor
  error : ∀ e, made = .error e → refuses e

theorem Picks.of_first {refuses : CompileError → Prop}
    {made : Except CompileError ConstructorFacade}
    (fit : ∀ c, r.IsFirst t types c → p c → ∃ x, made = .ok x ∧ x.constructor = c)
    (unfit : (∀ c, r.IsFirst t types c → ¬ p c) → ∃ e, made = .error e ∧ refuses e) :
    r.Picks t types p refuses made := by
  by_cases found : ∃ c, r.IsFirst t types c ∧ p c
  · obtain ⟨c, first, has⟩ := found
    obtain ⟨x, same, rfl⟩ := fit c first has
    refine ⟨iff_of_true ⟨x, same⟩ (exists_isFirst_iff.mp ⟨_, first, has⟩), fun y same' => ?_,
      fun e failed => ?_⟩
    · cases same.symm.trans same'
      exact ⟨first, has⟩
    · cases same.symm.trans failed
  · obtain ⟨e, failed, refused⟩ := unfit fun c first has => found ⟨c, first, has⟩
    have never (x : ConstructorFacade) (same : made = .ok x) : False := by
      cases failed.symm.trans same
    refine ⟨iff_of_false (fun ⟨x, same⟩ => never x same) (mt exists_isFirst_iff.mpr found),
      fun x same => (never x same).elim, fun e' failed' => ?_⟩
    cases failed.symm.trans failed'
    exact refused

end Registry

namespace ConstructorFacade

open Registry (constructor?_eq_some_iff constructor?_eq_none_iff)

variable {r : Registry} {t : Ty} {c : Constructor}

theorem exists_ofConstructor (r : Registry) (byValue : c.ByValue) (few : c.params.length < 65535) :
    ∃ x, ofConstructor r c = .ok x ∧ x.constructor = c :=
  ⟨_, ofConstructor_eq_ok r byValue few, rfl⟩

theorem ofConstructor_eq_error {e : CompileError}
    (refuses : Refuses (r.constructorLabel c) c.params e) : ofConstructor r c = .error e := by
  rw [ofConstructor, ConstructorInvoker.compile,
    (acceptParams_eq_error_iff (r.constructorLabel c) c.params e).mpr refuses]
  rfl

theorem picks_ofType (r : Registry) (t : Ty) :
    r.Picks t [] (·.isPublic = true) (· = .noPublicConstructor (r.name t)) (ofType r t) := by
  refine .of_first (fun c first isPublic => ?fit) fun unfit => ?unfit
  case fit =>
    have none : c.params = [] := List.map_eq_nil_iff.mp first.same
    have found := constructor?_eq_some_iff.mpr first
    rw [ofType, found, Option.filter_some, if_pos isPublic]
    exact exists_ofConstructor r (by simp [Constructor.ByValue, none]) (by simp [none])
  case unfit =>
    refine ⟨_, ?_, rfl⟩
    cases found : r.constructor? t [] with
    | none => rw [ofType, found, Option.filter_none]
    | some c =>
      rw [ofType, found, Option.filter_some, if_neg (unfit c (constructor?_eq_some_iff.mp found))]

/-- The error if no constructor has the parameter types, or if the first that has them cannot be
compiled. -/
inductive Misses (r : Registry) (t : Ty) (types : List Ty) : CompileError → Prop
  | absent (none : ∀ c ∈ r.constructors t, c.params.map Param.type ≠ types) :
      Misses r t types
        (.memberNotFound (r.name t) .constructor (r.signatureText ".ctor" types))
  | refused {c : Constructor} {e : CompileError} (first : r.IsFirst t types c)
      (refuses : Refuses (r.constructorLabel c) c.params e) : Misses r t types e

theorem picks_withParams (r : Registry) (t : Ty) {types : List Ty} (few : types.length < 65535) :
    r.Picks t types Constructor.ByValue (Misses r t types) (withParams r t types) := by
  have few' {c : Constructor} (first : r.IsFirst t types c) : c.params.length < 65535 := by
    rw [← List.length_map Param.type, first.same]
    exact few
  refine .of_first (fun c first byValue => ?fit) fun unfit => ?unfit
  case fit =>
    rw [withParams, constructor?_eq_some_iff.mpr first]
    exact exists_ofConstructor r byValue (few' first)
  case unfit =>
    cases found : r.constructor? t types with
    | none =>
      rw [withParams, found]
      exact ⟨_, rfl, .absent (constructor?_eq_none_iff.mp found)⟩
    | some c =>
      have first := constructor?_eq_some_iff.mp found
      cases checked : acceptParams (r.constructorLabel c) c.params with
      | ok _ =>
        obtain ⟨byValue, _⟩ := (acceptParams_eq_ok_iff _ _).mp checked
        exact absurd byValue (unfit c first)
      | error e =>
        have refuses := (acceptParams_eq_error_iff _ _ _).mp checked
        rw [withParams, found]
        exact ⟨e, ofConstructor_eq_error refuses, .refused first refuses⟩

/-- Whatever constructors have been declared on a type, and in whatever order: without parameter
types, a façade is made exactly if there is a public constructor without parameters, and with them,
exactly if there is one that has these types and takes every argument by value; provided that the
first constructor with the same parameter types does not hide it. -/
theorem made_iff_not_hidden {edits : List Edit} (replayed : Registry.replay {} edits = some r)
    (t : Ty) :
    (r.Finished t → r.Lists t (Registry.declared t {} edits)) ∧
    r.Picks t [] (·.isPublic = true) (· = .noPublicConstructor (r.name t)) (ofType r t) ∧
    ∀ types : List Ty, types.length < 65535 →
      r.Picks t types Constructor.ByValue (Misses r t types) (withParams r t types) :=
  ⟨Registry.lists_declared replayed, picks_ofType r t, fun _ => picks_withParams r t⟩

end ConstructorFacade

/-! A vault and a locker have the same constructors in opposite orders. -/

namespace Strongroom

def vault : Ty := .classType 0
def locker : Ty := .classType 1

def bare (t : Ty) (ordinal : Nat) (isPublic : Bool) : Constructor :=
  ⟨t, ordinal, [], { isPublic }⟩

def coded (t : Ty) (ordinal : Nat) (byRef : Bool) : Constructor :=
  ⟨t, ordinal, [⟨"code", .int32, byRef⟩], { isPublic := true }⟩

def declare (c : Constructor) : Edit := .addConstructor c.declaring c.params c.flags

def edits : List Edit :=
  [.startClass "Vault", declare (bare vault 0 false), declare (bare vault 1 true),
    declare (coded vault 2 true), declare (coded vault 3 false), .finish vault,
    .startClass "Locker", declare (coded locker 0 false), declare (coded locker 1 true),
    declare (bare locker 2 true), declare (bare locker 3 false), .finish locker]

def registry : Registry :=
  { types := #[
      ⟨"Vault", [.object], .finished (Draft.members
        { constructors := [bare vault 0 false, bare vault 1 true, coded vault 2 true,
            coded vault 3 false] })⟩,
      ⟨"Locker", [.object], .finished (Draft.members
        { constructors := [coded locker 0 false, coded locker 1 true, bare locker 2 true,
            bare locker 3 false] })⟩] }

theorem replay_edits : Registry.replay {} edits = some registry := by rfl

theorem byValue_coded (t : Ty) (ordinal : Nat) : (coded t ordinal false).ByValue := by
  simp [Constructor.ByValue, coded]

end Strongroom

namespace ConstructorFacade

open Strongroom

/-- A vault has a public constructor without parameters and one that takes its code by value, but
what stands in front of them has the same parameter types and is refused. -/
theorem made_iff_not_hidden_vault :
    Registry.replay {} edits = some registry ∧ registry.Finished vault ∧
      ofType registry vault = .error (.noPublicConstructor "Vault") ∧
      ¬ ((∃ x, ofType registry vault = .ok x) ↔
        ∃ c ∈ registry.constructors vault, c.params = [] ∧ c.isPublic = true) ∧
      withParams registry vault [.int32] = .error (.byRefParameter "Vault::.ctor" "code") ∧
      ¬ ((∃ x, withParams registry vault [.int32] = .ok x) ↔
        ∃ c ∈ registry.constructors vault, c.params.map Param.type = [.int32] ∧ c.ByValue) := by
  have closed : ofType registry vault = .error (.noPublicConstructor "Vault") := by rfl
  have lent : withParams registry vault [.int32] =
      .error (.byRefParameter "Vault::.ctor" "code") := by rfl
  refine ⟨replay_edits, ⟨rfl, rfl⟩, closed, fun claimed => ?_, lent,
    fun claimed => ?_⟩
  · obtain ⟨x, made⟩ := claimed.mpr ⟨bare vault 1 true, by decide, rfl, rfl⟩
    rw [closed] at made
    cases made
  · obtain ⟨x, made⟩ := claimed.mpr ⟨coded vault 3 false, by decide, rfl, byValue_coded vault 3⟩
    rw [lent] at made
    cases made

/-- A locker has these two in front. -/
theorem made_iff_not_hidden_locker :
    Registry.replay {} edits = some registry ∧
      registry.Lists locker (Registry.declared locker {} edits) ∧
      (∃ x, ofType registry locker = .ok x) ∧
      ∃ x, withParams registry locker [.int32] = .ok x := by
  obtain ⟨listed, none, typed⟩ := made_iff_not_hidden replay_edits locker
  have first : registry.IsFirst locker [] (bare locker 2 true) :=
    Registry.constructor?_eq_some_iff.mp rfl
  have first' : registry.IsFirst locker [.int32] (coded locker 0 false) :=
    Registry.constructor?_eq_some_iff.mp rfl
  refine ⟨replay_edits, listed ⟨rfl, rfl⟩, ?_, ?_⟩
  · exact none.accepts.mpr (Registry.exists_isFirst_iff.mp ⟨_, first, rfl⟩)
  · exact (typed [.int32] (by decide)).accepts.mpr
      (Registry.exists_isFirst_iff.mp ⟨_, first', byValue_coded locker 0⟩)

end ConstructorFacade

end MemberAccess
