import MemberAccess.Proofs.Layouts
import MemberAccess.Proofs.Operations

/-!
Which body a compiled method enters. It is that of the method that the routine was compiled for, or
of one that takes its place on the way up from the type of the receiver. Whether a parameter is by
reference is asked of the compiled method only; overriding compares parameter types.
-/

namespace MemberAccess

open Code Invoker

/-- Whether a call depends on no other bodies than those of the allowed methods: whatever the others
do, nothing of it shows, so none of them is entered. -/
def EntersOnly (allowed : Method → Prop) (call : Bodies → Run ε α) : Prop :=
  ∀ b b' : Bodies, (∀ m, allowed m → b.method m = b'.method m) → call b = call b'

namespace EntersOnly

variable {allowed : Method → Prop}

theorem mono {allowed' : Method → Prop} {call : Bodies → Run ε α} (enters : EntersOnly allowed call)
    (weaker : ∀ m, allowed m → allowed' m) : EntersOnly allowed' call := by
  intro b b' same
  apply enters
  intro m mem
  exact same m (weaker m mem)

theorem bind {x : Bodies → Run ε α} {f : Bodies → α → Run ε β} (first : EntersOnly allowed x)
    (next : ∀ a, EntersOnly allowed fun b => f b a) : EntersOnly allowed fun b => x b >>= f b := by
  intro b b' same
  show x b >>= f b = x b' >>= f b'
  rw [first b b' same]
  exact bind_congr fun a => next a b b' same

theorem mapError {call : Bodies → Run ε α} (f : ε → δ) (enters : EntersOnly allowed call) :
    EntersOnly allowed fun b => (call b).mapError f := by
  intro b b' same
  exact congrArg (Run.mapError f) (enters b b' same)

end EntersOnly

namespace Registry

/-- Whether `o` can take the place of `m` on a receiver: both are virtual methods of instances,
names, return types and parameter types are the same, and `o` is declared on the way up to the
declaring type of `m`. -/
structure Overrides (r : Registry) (m : Method) (this : Value) (o : Method) : Prop where
  isVirtual : m.isVirtual = true
  isInstance : m.isStatic = false
  overrides : o.overrides m = true
  declared : ∃ t, this.runtimeType? = some t ∧
    ∃ s ∈ (r.chain t).takeWhile (· != m.declaring), o ∈ r.methods s

/-- The method whose body a call of `m` on a receiver enters. -/
def target (r : Registry) (m : Method) (this : Value) : Method :=
  if m.isStatic || !m.isVirtual then m
  else
    match this.runtimeType? with
    | none => m
    | some t => r.mostDerived m t

theorem target_eq_or_overrides (r : Registry) (m : Method) (this : Value) :
    r.target m this = m ∨ r.Overrides m this (r.target m this) := by
  unfold target
  by_cases fixed : (m.isStatic || !m.isVirtual) = true
  · rw [if_pos fixed]
    exact .inl rfl
  · rw [if_neg fixed]
    obtain ⟨isInstance, isVirtual⟩ : m.isStatic = false ∧ m.isVirtual = true := by
      simpa using fixed
    cases runtime : this.runtimeType? with
    | none => exact .inl rfl
    | some t =>
      rcases r.mostDerived_eq_or_overrides m t with same | ⟨s, below, declared, overrides⟩
      · exact .inl same
      · exact .inr ⟨isVirtual, isInstance, overrides, t, runtime, s, below, declared⟩

end Registry

namespace Method

variable (r : Registry) (m : Method)

theorem call_entersOnly (this : Value) (slots : Array Slot) :
    EntersOnly (· = m) fun b => m.call ⟨r, b⟩ this slots := by
  intro b b' same
  simp only [call, same m rfl]

/-- On a receiver with a runtime type, a virtual call is the call of the target. -/
theorem callVirtual_eq_call {this : Value} {t : Ty} (isInstance : m.isStatic = false)
    (runtime : this.runtimeType? = some t) (b : Bodies) (slots : Array Slot) :
    m.callVirtual ⟨r, b⟩ this slots = (r.target m this).call ⟨r, b⟩ this slots := by
  have target : r.target m this = if m.isVirtual = true then r.mostDerived m t else m := by
    rw [Registry.target, isInstance, runtime]
    cases m.isVirtual <;> rfl
  rw [target, callVirtual, runtime]

theorem callVirtual_entersOnly (isInstance : m.isStatic = false) (this : Value)
    (slots : Array Slot) :
    EntersOnly (· = r.target m this) fun b => m.callVirtual ⟨r, b⟩ this slots := by
  cases runtime : this.runtimeType? with
  | none =>
    intro b b' _
    simp only [callVirtual, runtime]
  | some t =>
    simp only [callVirtual_eq_call r m isInstance runtime]
    exact call_entersOnly r _ this slots

/-- A policy gives the receiver itself, and a static method is entered without one. -/
theorem enter_entersOnly (policy : Policy) (this : Value) (slots : List Slot) :
    EntersOnly (· = r.target m this) fun b => m.enter ⟨r, b⟩ policy this slots := by
  unfold enter
  by_cases static : m.isStatic = true
  · have target : r.target m this = m := if_pos (by rw [static, Bool.true_or])
    simp only [if_pos static, target]
    exact call_entersOnly r m .null slots.toArray
  · simp only [if_neg static]
    intro b b' same
    cases passed : policy.pass r m.declaring this with
    | error e => rfl
    | ok receiver =>
      obtain rfl := Policy.eq_of_pass passed
      exact callVirtual_entersOnly r m (Bool.eq_false_iff.mpr static) receiver slots.toArray b b' same

theorem invoke_entersOnly (this : Value) (args : Array Value) :
    EntersOnly (· = r.target m this) fun b => m.invoke ⟨r, b⟩ this args := by
  simp only [invoke_eq]
  refine .bind (fun _ _ _ => rfl) fun slots => ?_
  refine .bind (m.enter_entersOnly r .checked this slots.toList) fun result => ?_
  exact fun _ _ _ => rfl

end Method

namespace MethodInvoker

variable {r' : Registry} {m : Method} {policy : Policy} {i : MethodInvoker}

theorem byValue_of_compile (compiled : compile r' m policy = .ok i) :
    ∀ q ∈ m.params, q.byRef = false := by
  cases accepted : acceptParams (r'.methodLabel m) m.params with
  | error e =>
    rw [compile, accepted] at compiled
    cases compiled
  | ok _ => exact (of_acceptParams accepted).1

/-- Arguments are converted and results boxed without any body. -/
theorem answer_entersOnly (r : Registry) (m : Method) (policy : Policy) (this : Value)
    (args : Array Value) :
    EntersOnly (· = r.target m this) fun b => answer ⟨r, b⟩ m policy this args := by
  refine .bind (fun _ _ _ => rfl) fun slots => ?_
  refine .bind ((m.enter_entersOnly r policy this slots).mapError _) fun result => ?_
  exact fun _ _ _ => rfl

theorem invoke_entersOnly (compiled : compile r' m policy = .ok i) (r : Registry) (this : Value)
    (args : Array Value) :
    EntersOnly (· = r.target m this) fun b => i.invoke ⟨r, b⟩ this args := by
  obtain ⟨made, same, few⟩ := of_compile compiled
  rw [same]
  simp only [invoke_eq_answer _ m policy made few]
  exact (answer_entersOnly r m policy this args).mapError _

/-- A method is compiled only if none of its parameters is by reference. On every receiver, with any
arguments and on every store, the routine enters one body at most: that of the compiled method, or
that of a method which overrides it below its declaring type. So no method with a by-reference
parameter is entered, as long as none overrides the compiled one on the way up from the receiver. -/
theorem enters_target (compiled : compile r' m policy = .ok i) (r : Registry) (this : Value)
    (args : Array Value) :
    (∀ q ∈ m.params, q.byRef = false) ∧
      (∃ o, (o = m ∨ r.Overrides m this o) ∧
        EntersOnly (· = o) fun b => i.invoke ⟨r, b⟩ this args) ∧
      ((∀ o, r.Overrides m this o → ∀ q ∈ o.params, q.byRef = false) →
        EntersOnly (fun o => ∀ q ∈ o.params, q.byRef = false) fun b =>
          i.invoke ⟨r, b⟩ this args) := by
  have byValue := byValue_of_compile compiled
  have target := r.target_eq_or_overrides m this
  have enters := invoke_entersOnly compiled r this args
  refine ⟨byValue, ⟨_, target, enters⟩, fun overrides => ?_⟩
  apply enters.mono
  rintro o rfl
  rcases target with same | overriding
  · rwa [same]
  · exact overrides _ overriding

end MethodInvoker

/-! A scale weighs loads. So do a balance, which takes the load by reference, and a steelyard, which
takes it by value. -/

namespace Weighing

def scale : Ty := .classType 0
def balance : Ty := .classType 1
def steelyard : Ty := .classType 2

def weigh : Method :=
  ⟨scale, 0, "Weigh", [⟨"load", .int32, false⟩], .string, { isPublic := true, isVirtual := true }⟩

def weighByRef : Method :=
  ⟨balance, 0, "Weigh", [⟨"load", .int32, true⟩], .string,
    { isPublic := true, isVirtual := true }⟩

def weighByValue : Method :=
  ⟨steelyard, 0, "Weigh", [⟨"goods", .int32, false⟩], .string,
    { isPublic := true, isVirtual := true }⟩

def edits : List Edit :=
  [.startClass "Scale",
    .addMethod scale "Weigh" weigh.params .string { isPublic := true, isVirtual := true },
    .finish scale, .startDerived "Balance" scale,
    .addMethod balance "Weigh" weighByRef.params .string { isPublic := true, isVirtual := true },
    .finish balance, .startDerived "Steelyard" scale,
    .addMethod steelyard "Weigh" weighByValue.params .string
      { isPublic := true, isVirtual := true },
    .finish steelyard]

def registry : Registry :=
  { types := #[
      ⟨"Scale", [.object], .finished (Draft.members { methods := [weigh] })⟩,
      ⟨"Balance", [scale, .object], .finished (Draft.members { methods := [weighByRef] })⟩,
      ⟨"Steelyard", [scale, .object], .finished (Draft.members { methods := [weighByValue] })⟩] }

theorem replay_edits : Registry.replay {} edits = some registry := by rfl

/-- Bodies that tell by `text` that a parameter is by reference. -/
def bodies (text : String) : Bodies where
  method m _ := pure (.ref (.string (if m.params.any Param.byRef then text else "by value")))
  constructor _ _ := pure ()

theorem method_bodies {m : Method} (byValue : ∀ q ∈ m.params, q.byRef = false)
    (text text' : String) : (bodies text).method m = (bodies text').method m := by
  have none : m.params.any Param.byRef = false := by
    rw [List.any_eq_false]
    intro q mem
    rw [byValue q mem]
    exact Bool.false_ne_true
  simp only [bodies, none]
  rfl

end Weighing

namespace MethodInvoker

/-- What a balance is asked to weigh, it weighs by reference, although the routine was compiled for
the method of scales. -/
theorem enters_weighByRef :
    Registry.Reaches {} Weighing.registry ∧
      Weighing.registry.assignable Weighing.weigh.declaring Weighing.balance = true ∧
      ∀ policy, ∃ i, compile Weighing.registry Weighing.weigh policy = .ok i ∧
        (i.invoke ⟨Weighing.registry, Weighing.bodies "by reference"⟩
          (.object ⟨Weighing.balance, 0⟩) #[.int32 1] { objects := #[[]] }).1 =
            .ok (.string "by reference") ∧
        ¬ EntersOnly (fun o => ∀ q ∈ o.params, q.byRef = false) fun b =>
          i.invoke ⟨Weighing.registry, b⟩ (.object ⟨Weighing.balance, 0⟩) #[.int32 1] := by
  have byValue : ∀ q ∈ Weighing.weigh.params, q.byRef = false := by decide
  have few : Weighing.weigh.params.length < 65535 := by decide
  refine ⟨Registry.reaches_of_replay Weighing.replay_edits, by decide, fun policy => ?_⟩
  refine ⟨_, compile_eq_ok Weighing.registry policy byValue few, ?_⟩
  -- What a body says of a parameter by reference reaches the caller.
  have said (text : String) :
      (invoke ⟨Weighing.registry, Weighing.bodies text⟩
        ⟨Weighing.weigh, body Weighing.registry Weighing.weigh policy, maxStack Weighing.weigh,
          check_body Weighing.registry policy few⟩
        (.object ⟨Weighing.balance, 0⟩) #[.int32 1] { objects := #[[]] }).1 =
          .ok (.string text) := by
    rw [invoke_eq_answer _ Weighing.weigh policy rfl few]
    cases policy <;> rfl
  refine ⟨said "by reference", fun enters => ?_⟩
  have same := enters (Weighing.bodies "by reference") (Weighing.bodies "in another way")
    fun o allowed => Weighing.method_bodies allowed _ _
  have outcomes := congrArg Prod.fst (congrFun same { objects := #[[]] })
  have texts := (said "by reference").symm.trans (outcomes.trans (said "in another way"))
  exact absurd (Value.string.inj (Except.ok.inj texts)) (by decide)

/-- A steelyard weighs with a method of its own, and that one takes the load by value as well. -/
theorem enters_weigh :
    Weighing.registry.Overrides Weighing.weigh (.object ⟨Weighing.steelyard, 0⟩)
        Weighing.weighByValue ∧
      ∃ i, compile Weighing.registry Weighing.weigh .trusted = .ok i ∧
        EntersOnly (fun o => ∀ q ∈ o.params, q.byRef = false) fun b =>
          i.invoke ⟨Weighing.registry, b⟩ (.object ⟨Weighing.steelyard, 0⟩) #[.int32 1] := by
  have byValue : ∀ q ∈ Weighing.weigh.params, q.byRef = false := by decide
  have few : Weighing.weigh.params.length < 65535 := by decide
  have compiled := compile_eq_ok Weighing.registry .trusted byValue few
  obtain ⟨_, _, enters⟩ := enters_target compiled Weighing.registry
    (.object ⟨Weighing.steelyard, 0⟩) #[.int32 1]
  have below : (Weighing.registry.chain Weighing.steelyard).takeWhile
      (· != Weighing.weigh.declaring) = [Weighing.steelyard] := by decide
  refine ⟨⟨rfl, rfl, by decide, _, rfl, Weighing.steelyard, ?_, by decide⟩, _, compiled,
    enters fun o overriding => ?_⟩
  · rw [below]
    exact List.mem_singleton_self _
  · -- The only type below scales on the way up is that of steelyards, which has one method.
    obtain ⟨t, runtime, s, between, declared⟩ := overriding.declared
    cases runtime
    rw [below, List.mem_singleton] at between
    subst between
    rw [List.mem_singleton.mp declared]
    decide

end MethodInvoker

end MemberAccess
