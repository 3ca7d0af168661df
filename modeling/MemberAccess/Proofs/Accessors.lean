import MemberAccess.Proofs.ForeignReceivers
import MemberAccess.Proofs.PropertyAgreement
import MemberAccess.Proofs.Receivers
import MemberAccess.Proofs.Totality

/-!
Accessors that are not virtual. On a receiver of its type such an accessor is entered itself, under
either policy, so a façade converts what goes in, runs the one body, and hands over what comes out.
-/

namespace MemberAccess

open Invoker

theorem Run.discard_of_ok {x : Run ε α} {h after : Heap} {a : α} (result : x h = (.ok a, after)) :
    discard x h = (.ok (), after) := by
  show ExceptT.map _ x h = _
  simp only [ExceptT.map, ExceptT.mk, bind, StateT.bind, result]
  rfl

theorem Run.discard_of_error {x : Run ε α} {h after : Heap} {e : ε}
    (result : x h = (.error e, after)) : discard x h = (.error e, after) := by
  show ExceptT.map _ x h = _
  simp only [ExceptT.map, ExceptT.mk, bind, StateT.bind, result]
  rfl

/-- A method that is not virtual is entered itself on whatever derives from its type. -/
theorem Method.enter_of_direct {p : Program} {m : Method} {this : Value} {t : Ty}
    (isInstance : m.isStatic = false) (direct : m.isVirtual = false)
    (hasType : this.runtimeType? = some t) (accepts : p.registry.assignable m.declaring t = true)
    (policy : Policy) {slots : List Slot} (count : slots.length = m.params.length) :
    m.enter p policy this slots = p.bodies.method m ⟨this, slots.toArray⟩ := by
  have passed : policy.pass p.registry m.declaring this = .ok this := by
    refine policy.pass_of_assignable fun u same => ?_
    rw [hasType] at same
    cases same
    exact accepts
  have itself : p.registry.target m this = m := by
    rw [Registry.target, isInstance, direct]
    rfl
  have counted : slots.toArray.size = m.params.length := count
  have body := m.callVirtual_eq_body (r := p.registry) isInstance hasType counted p.bodies
  rw [itself] at body
  rw [enter, if_neg (Bool.eq_false_iff.mp isInstance), passed, Run.ofExcept_ok, pure_bind]
  exact body

namespace MethodFacade

variable {r : Registry} {m : Method} {policy : Policy} {x : MethodFacade}
  (made : ofMethod r m policy = .ok x) (p : Program) (this : Value) {args : Array Value}

include made

theorem invoke_of_count (count : args.size = m.params.length) :
    x.invoke p this args =
      convertFrom p.registry args 0 m.params >>= fun slots =>
        m.enter p policy this slots >>= MethodInvoker.finish p.registry m := by
  obtain ⟨body, same, few⟩ := MethodInvoker.of_compile (of_ofMethod made)
  have whole : x = ⟨m, x.invoker.routine⟩ := congrArg MethodFacade.mk same
  rw [whole, invoke_eq p m policy body few, if_pos count, MethodInvoker.mapError_answer_eq]

theorem invoke_of_count_ne (count : args.size ≠ m.params.length) :
    x.invoke p this args =
      throw (.argumentCount (p.registry.methodLabel m) m.params.length args.size) := by
  obtain ⟨body, same, few⟩ := MethodInvoker.of_compile (of_ofMethod made)
  have whole : x = ⟨m, x.invoker.routine⟩ := congrArg MethodFacade.mk same
  rw [whole, invoke_eq p m policy body few, if_neg count]

theorem invoke_of_direct {p : Program} {this : Value} {t : Ty}
    (typed : ∀ q ∈ m.params, q.type ≠ .void)
    (isInstance : m.isStatic = false) (direct : m.isVirtual = false)
    (hasType : this.runtimeType? = some t) (accepts : p.registry.assignable m.declaring t = true)
    (count : args.size = m.params.length) :
    x.invoke p this args = (do
      let slots ← unboxAll p.registry m.params args
      let s ← p.bodies.method m ⟨this, slots.toArray⟩
      MethodInvoker.finish p.registry m s) := by
  obtain ⟨_, _, few⟩ := MethodInvoker.of_compile (of_ofMethod made)
  rw [invoke_of_count made p this count,
    ← convertFrom_eq_unboxAll p.registry (Nat.le_of_eq count.symm) few typed]
  refine (length_convertFrom p.registry args 0 m.params).bind_congr fun slots count => ?_
  rw [Method.enter_of_direct isInstance direct hasType accepts policy count]

end MethodFacade

namespace PropertyFacade

variable {r : Registry} {q : Property} {policy : Policy} {x : PropertyFacade}

theorem exists_of_accessor {m : Method} {x? : Option MethodFacade}
    (made : accessor r (some m) policy = .ok x?) :
    ∃ x, x? = some x ∧ MethodFacade.ofMethod r m policy = .ok x := by
  simp only [accessor] at made
  cases compiled : MethodFacade.ofMethod r m policy with
  | error e =>
    rw [compiled] at made
    cases made
  | ok x =>
    rw [compiled] at made
    cases made
    exact ⟨x, rfl, rfl⟩

theorem of_ofProperty (made : ofProperty r q policy = .ok x) :
    accessor r q.getter? policy = .ok x.getter? ∧ accessor r q.setter? policy = .ok x.setter? := by
  unfold ofProperty at made
  cases getter : accessor r q.getter? policy with
  | error e =>
    rw [getter] at made
    cases made
  | ok getter? =>
    cases setter : accessor r q.setter? policy with
    | error e =>
      rw [getter, setter] at made
      cases made
    | ok setter? =>
      rw [getter, setter] at made
      cases made
      exact ⟨rfl, rfl⟩

theorem exists_of_passable (r : Registry) (policy : Policy)
    (passable : ∀ m ∈ q.accessors, Passable m.params) : ∃ x, ofProperty r q policy = .ok x := by
  have compiles (m? : Option Method) (own : ∀ m, m? = some m → m ∈ q.accessors) :
      ∃ x?, accessor r m? policy = .ok x? := by
    cases m? with
    | none => exact ⟨none, rfl⟩
    | some m =>
      obtain ⟨i, compiled, _⟩ :=
        MethodInvoker.compile_of_passable r policy (passable m (own m rfl))
      refine ⟨some ⟨i⟩, ?_⟩
      rw [accessor, MethodFacade.ofMethod, compiled]
      rfl
  obtain ⟨getter?, getter⟩ := compiles q.getter? fun _ => Property.mem_accessors_of_getter
  obtain ⟨setter?, setter⟩ := compiles q.setter? fun _ => Property.mem_accessors_of_setter
  refine ⟨⟨q, getter?, setter?⟩, ?_⟩
  rw [ofProperty, getter, setter]
  rfl

variable (made : ofProperty r q policy = .ok x) {m : Method}

include made

theorem exists_getter (getter : q.getter? = some m) :
    ∃ g, MethodFacade.ofMethod r m policy = .ok g ∧
      ∀ p target index, x.read p target index = g.invoke p target index := by
  obtain ⟨compiled, _⟩ := of_ofProperty made
  rw [getter] at compiled
  obtain ⟨g, there, made⟩ := exists_of_accessor compiled
  refine ⟨g, made, fun p target index => ?_⟩
  rw [read, there]

theorem exists_setter (setter : q.setter? = some m) :
    ∃ g, MethodFacade.ofMethod r m policy = .ok g ∧
      ∀ p target value index,
        x.write p target value index = discard (g.invoke p target (index.push value)) := by
  obtain ⟨_, compiled⟩ := of_ofProperty made
  rw [setter] at compiled
  obtain ⟨g, there, made⟩ := exists_of_accessor compiled
  exact ⟨g, made, fun p target value index => write_of_setter p there target value index⟩

section Direct

variable {p : Program} {this : Value} {t : Ty} (typed : ∀ a ∈ m.params, a.type ≠ .void)
  (isInstance : m.isStatic = false) (direct : m.isVirtual = false)
  (hasType : this.runtimeType? = some t) (accepts : p.registry.assignable m.declaring t = true)

include typed isInstance direct hasType accepts

theorem read_of_direct (getter : q.getter? = some m) {index : Array Value}
    (count : index.size = m.params.length) :
    x.read p this index = (do
      let slots ← unboxAll p.registry m.params index
      let s ← p.bodies.method m ⟨this, slots.toArray⟩
      MethodInvoker.finish p.registry m s) := by
  obtain ⟨g, made, reads⟩ := exists_getter made getter
  rw [reads, MethodFacade.invoke_of_direct made typed isInstance direct hasType accepts count]

theorem write_of_direct (setter : q.setter? = some m) (value : Value) {index : Array Value}
    (count : index.size + 1 = m.params.length) :
    x.write p this value index = discard (do
      let slots ← unboxAll p.registry m.params (index.push value)
      let s ← p.bodies.method m ⟨this, slots.toArray⟩
      MethodInvoker.finish p.registry m s) := by
  obtain ⟨g, made, writes⟩ := exists_setter made setter
  have pushed : (index.push value).size = m.params.length := by rwa [Array.size_push]
  rw [writes, MethodFacade.invoke_of_direct made typed isInstance direct hasType accepts pushed]

end Direct

end PropertyFacade

end MemberAccess
