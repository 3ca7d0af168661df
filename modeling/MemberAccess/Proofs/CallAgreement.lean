import MemberAccess.Defining
import MemberAccess.Facade
import MemberAccess.Proofs.Boxing

/-!
Façades of methods and constructors against invocation by descriptor: on the same store they give
the same result or failure and leave the same store.
-/

namespace MemberAccess

open Code Invoker

/-- Member bodies give a reference wherever the return type is a reference type. -/
def Bodies.ReturnReferences (b : Bodies) : Prop :=
  ∀ m frame, m.returns.isReferenceType = true → (b.method m frame).Yields fun s => ∃ v, s = .ref v

namespace Registry

/-- Only a method that overrides `m`, declared on the way up to the declaring type, takes the place
of `m`. -/
theorem mostDerived_eq_or_overrides (r : Registry) (m : Method) (runtime : Ty) :
    r.mostDerived m runtime = m ∨
      ∃ s ∈ (r.chain runtime).takeWhile (· != m.declaring),
        r.mostDerived m runtime ∈ r.methods s ∧ (r.mostDerived m runtime).overrides m = true := by
  unfold mostDerived
  simp only
  cases found : ((r.chain runtime).takeWhile (· != m.declaring)).findSome? fun t =>
      (r.methods t).find? (·.overrides m) with
  | none => exact .inl rfl
  | some target =>
    obtain ⟨s, below, hit⟩ := List.exists_of_findSome?_eq_some found
    have overrides := List.find?_some hit
    exact .inr ⟨s, below, List.mem_of_find?_eq_some hit, overrides⟩

/-- An override returns what the overridden method returns. -/
theorem returns_mostDerived (r : Registry) (m : Method) (runtime : Ty) :
    (r.mostDerived m runtime).returns = m.returns := by
  rcases r.mostDerived_eq_or_overrides m runtime with same | ⟨_, _, _, overrides⟩
  · rw [same]
  · exact (Method.overrides_iff.mp overrides).2.2.2.1

end Registry

namespace Method

variable {p : Program} (references : p.bodies.ReturnReferences)

include references

theorem call_yields {m : Method} (returns : m.returns.isReferenceType = true) (this : Value)
    (slots : Array Slot) : (m.call p this slots).Yields fun s => ∃ v, s = .ref v := by
  unfold call
  split
  · exact .throw _
  · split
    · exact .throw _
    · exact references m _ returns

theorem callVirtual_yields {m : Method} (returns : m.returns.isReferenceType = true)
    (this : Value) (slots : Array Slot) :
    (m.callVirtual p this slots).Yields fun s => ∃ v, s = .ref v := by
  unfold callVirtual
  split
  · exact .throw _
  · next t _ =>
    refine call_yields references ?_ this slots
    split
    · rw [Registry.returns_mostDerived]
      exact returns
    · exact returns

theorem enter_yields {m : Method} (returns : m.returns.isReferenceType = true) (policy : Policy)
    (this : Value) (slots : List Slot) :
    (m.enter p policy this slots).Yields fun s => ∃ v, s = .ref v := by
  unfold enter
  split
  · exact call_yields references returns .null _
  · exact .bind (.trivial _) fun receiver _ => callVirtual_yields references returns receiver _

end Method

/-- Invocation by descriptor enters a method as a checked routine does: null is rejected by both,
before the virtual call or by it. -/
theorem Method.invoke_eq (p : Program) (m : Method) (this : Value) (args : Array Value) :
    m.invoke p this args = (do
      let slots ← unboxArguments p.registry (p.registry.methodLabel m) m.params args
      let result ← m.enter p .checked this slots.toList
      if m.returns.isVoid then return .null else result.box p.registry m.returns) := by
  unfold Method.invoke Method.enter
  refine bind_congr fun slots => ?_
  by_cases static : m.isStatic
  · simp only [if_pos static, Array.toArray_toList]
  · simp only [if_neg static, Array.toArray_toList, bind_assoc]
    refine bind_congr fun receiver => ?_
    cases receiver <;> rfl

theorem Method.invoke_newBox {p : Program} {m : Method} (struct : m.returns.isStruct = true)
    {this : Value} {args : Array Value} {before after : Heap} {v : Value}
    (result : m.invoke p this args before = (.ok v, after)) :
    ∃ middle, v.NewBox m.returns middle after := by
  have returnsSome : ¬ m.returns.isVoid = true := by
    cases returns : m.returns with
    | structType id => exact Bool.false_ne_true
    | _ =>
      rw [returns] at struct
      cases struct
  rw [Method.invoke_eq] at result
  obtain ⟨slots, converted, _, result⟩ := Run.bind_eq_ok.mp result
  obtain ⟨s, middle, _, result⟩ := Run.bind_eq_ok.mp result
  rw [if_neg returnsSome] at result
  exact ⟨middle, Slot.box_newBox struct result⟩

namespace MethodInvoker

/-- On as many arguments as there are parameters, a checked routine and invocation by descriptor do
the same. -/
theorem mapError_answer {p : Program} {m : Method} (references : p.bodies.ReturnReferences)
    (few : m.params.length < 65535) (typed : ∀ q ∈ m.params, q.type ≠ .void) (this : Value)
    {args : Array Value} (count : args.size = m.params.length) :
    (answer p m .checked this args).mapError ExecError.toInvokeError = m.invoke p this args := by
  rw [Method.invoke_eq, unboxArguments_eq_convertFrom p.registry _ count few typed, answer]
  simp only [Run.mapError_bind, ExecM.mapError_run, bind_assoc, pure_bind]
  refine bind_congr fun slots => ?_
  by_cases noResult : m.returns.isVoid
  · simp only [if_pos noResult, Run.mapError_pure]
  · simp only [if_neg noResult]
    have returnsSome : m.returns ≠ .void := by
      intro same
      rw [same] at noResult
      exact noResult rfl
    exact bind_handOver p.registry returnsSome fun returns =>
      Method.enter_yields references returns .checked this slots

end MethodInvoker

/-- A call goes on behind the check of the number of arguments only if this is right. -/
theorem exactCount_bind (member : String) (expected got : Nat) (call : RunM α) :
    (Run.ofExcept (exactCount member expected got) >>= fun _ => call) =
      if got = expected then call else throw (.argumentCount member expected got) := by
  unfold exactCount
  by_cases count : got = expected
  · rw [if_pos count, if_pos count.symm, Run.ofExcept_ok, pure_bind]
  · rw [if_neg count, if_neg (Ne.symm count), Run.ofExcept_error, Run.throw_bind]

namespace MethodFacade

theorem ofMethod_eq_ok (r : Registry) {m : Method} (policy : Policy)
    (byValue : ∀ q ∈ m.params, q.byRef = false) (few : m.params.length < 65535) :
    ofMethod r m policy = .ok ⟨m, ⟨MethodInvoker.body r m policy, MethodInvoker.maxStack m,
      MethodInvoker.check_body r policy few⟩⟩ := by
  rw [ofMethod, MethodInvoker.compile_eq_ok r policy byValue few]
  rfl

/-- A façade runs the routine only on the right number of arguments. -/
theorem invoke_eq (p : Program) {r : Registry} (m : Method) (policy : Policy) {routine : Routine}
    (made : routine.body = MethodInvoker.body r m policy)
    (few : m.params.length < 65535) (this : Value) (args : Array Value) :
    invoke p ⟨m, routine⟩ this args =
      if args.size = m.params.length then
        (MethodInvoker.answer p m policy this args).mapError ExecError.toInvokeError
      else throw (.argumentCount (p.registry.methodLabel m) m.params.length args.size) := by
  have counted : invoke p ⟨m, routine⟩ this args =
      Run.ofExcept (exactCount (p.registry.methodLabel m) m.params.length args.size) >>= fun _ =>
        MethodInvoker.invoke p ⟨m, routine⟩ this args := rfl
  rw [counted, MethodInvoker.invoke_eq_answer p m policy made few, exactCount_bind]

/-- With a checked receiver, a façade and invocation by descriptor do the same. -/
theorem invoke_eq_invoke {p : Program} {r : Registry} {m : Method}
    (references : p.bodies.ReturnReferences) (few : m.params.length < 65535)
    (typed : ∀ q ∈ m.params, q.type ≠ .void) {routine : Routine}
    (made : routine.body = MethodInvoker.body r m .checked) (this : Value) (args : Array Value) :
    invoke p ⟨m, routine⟩ this args = m.invoke p this args := by
  rw [invoke_eq p m .checked made few this args]
  by_cases count : args.size = m.params.length
  · rw [if_pos count, MethodInvoker.mapError_answer references few typed this count]
  · rw [if_neg count, Method.invoke_eq, unboxArguments_of_ne _ _ count, Run.throw_bind]

end MethodFacade

namespace Constructor

theorem construct_of_eq (p : Program) {c : Constructor} {slots : Array Slot}
    (count : slots.size = c.params.length) :
    c.construct p slots = (do
      let o ← modifyGet fun h => h.alloc c.declaring (p.registry.initialSlots c.declaring)
      p.bodies.constructor c ⟨.object o, slots⟩
      if c.declaring.isValueType then return (← get).copyOut o else return .ref (.object o)) := by
  simp [construct, count]

theorem construct_of_ne (p : Program) {c : Constructor} {slots : Array Slot}
    (count : slots.size ≠ c.params.length) :
    c.construct p slots =
      throw (.argumentCount (p.registry.constructorLabel c) c.params.length slots.size) := by
  simp [construct, count]

/-- The instance that a constructor runs on takes the next free address. -/
theorem construct_eq_ok {p : Program} {c : Constructor} {slots : Array Slot} {before after : Heap}
    {s : Slot} (result : c.construct p slots before = (.ok s, after)) :
    s = if c.declaring.isValueType then after.copyOut ⟨c.declaring, before.objects.size⟩
      else .ref (.object ⟨c.declaring, before.objects.size⟩) := by
  by_cases count : slots.size = c.params.length
  · rw [construct_of_eq p count] at result
    obtain ⟨o, allocated, first, result⟩ := Run.bind_eq_ok.mp result
    cases first
    obtain ⟨_, middle, _, result⟩ := Run.bind_eq_ok.mp result
    by_cases valueType : c.declaring.isValueType
    · rw [if_pos valueType] at result ⊢
      cases result
      rfl
    · rw [if_neg valueType] at result ⊢
      cases result
      rfl
  · rw [construct_of_ne p count] at result
    cases result

/-- Whether `v` is an instance of the declaring type that did not exist before: a class instance is
not in the store that the call began with, and a value type comes in a box that was made last. -/
def Creates (c : Constructor) (before after : Heap) (v : Value) : Prop :=
  ∃ o, v = .object o ∧ o.type = c.declaring ∧
    if c.declaring.isValueType then ∃ middle, v.NewBox c.declaring middle after
    else before.slots? o = none

theorem invoke_creates {p : Program} {c : Constructor} {args : Array Value} {before after : Heap}
    {v : Value} (result : c.invoke p args before = (.ok v, after)) : c.Creates before after v := by
  unfold invoke at result
  obtain ⟨slots, converted, first, result⟩ := Run.bind_eq_ok.mp result
  obtain ⟨s, middle, second, result⟩ := Run.bind_eq_ok.mp result
  -- Converting the arguments has allocated nothing, so the instance is new to `before` itself.
  have kept := (unboxArguments_reads p.registry _ c.params args).eq_of_ok first
  subst kept
  have created := construct_eq_ok second
  by_cases valueType : c.declaring.isValueType
  · rw [if_pos valueType] at created
    subst created
    have struct : c.declaring.isStruct = true := by
      cases declaring : c.declaring with
      | structType id => rfl
      | primitive p =>
        rw [declaring] at result
        cases p <;> cases result
      | _ =>
        rw [declaring] at valueType
        cases valueType
    obtain ⟨fields, rfl, boxed⟩ := Slot.box_newBox struct result
    refine ⟨_, rfl, rfl, ?_⟩
    rw [if_pos valueType]
    exact ⟨middle, fields, rfl, boxed⟩
  · rw [if_neg valueType] at created
    subst created
    rw [Slot.box_ref_eq_ok result]
    refine ⟨_, rfl, rfl, ?_⟩
    rw [if_neg valueType]
    exact Array.getElem?_eq_none (Nat.le_refl _)

theorem construct_yields (p : Program) (c : Constructor)
    (reference : c.declaring.isReferenceType = true) (slots : Array Slot) :
    (c.construct p slots).Yields fun s => ∃ v, s = .ref v := by
  intro before s after result
  have created := construct_eq_ok result
  rw [Ty.isValueType_of_isReferenceType reference] at created
  exact ⟨_, created⟩

end Constructor

namespace ConstructorInvoker

theorem mapError_answer (p : Program) {c : Constructor} (declared : c.declaring ≠ .void)
    (few : c.params.length < 65535) (typed : ∀ q ∈ c.params, q.type ≠ .void)
    {args : Array Value} (count : args.size = c.params.length) :
    (answer p c args).mapError ExecError.toInvokeError = c.invoke p args := by
  rw [Constructor.invoke, unboxArguments_eq_convertFrom p.registry _ count few typed, answer]
  simp only [Run.mapError_bind, ExecM.mapError_run, bind_assoc, pure_bind]
  refine bind_congr fun slots => ?_
  exact bind_handOver p.registry declared fun reference =>
    Constructor.construct_yields p c reference slots.toArray

end ConstructorInvoker

/-! An axis answers with the interval between two numbers. -/

namespace Interval

def between : Method :=
  ⟨.classType 0, 0, "Between", [⟨"low", .int32, false⟩, ⟨"high", .int32, false⟩], .structType 1,
    { isPublic := true, isVirtual := true }⟩

def make : Constructor :=
  ⟨.structType 1, 0, [⟨"low", .int32, false⟩, ⟨"high", .int32, false⟩], { isPublic := true }⟩

def program : Program where
  registry :=
    { types := #[⟨"Axis", [.object], .finished (Draft.members { methods := [between] })⟩,
        ⟨"Interval", [], .finished
          (Draft.members { constructors := [make], layout := [.int32, .int32] })⟩] }
  bodies :=
    { method := fun m frame => do
        if m.returns.isReferenceType then return .null
        return .struct (.structType 1) frame.args.toList
      constructor := fun _ frame => do
        let o ← Run.ofExcept (frame.receiverObject {})
        let low ← Run.ofExcept (frame.arg 0)
        let high ← Run.ofExcept (frame.arg 1)
        modify fun h => (h.store o 0 low).store o 1 high }

theorem returnReferences : program.bodies.ReturnReferences := by
  intro m frame returns
  have null : program.bodies.method m frame = pure .null := by
    simp [program, returns]
  rw [null]
  exact .pure ⟨.null, rfl⟩

end Interval

namespace ConstructorFacade

theorem ofConstructor_eq_ok (r : Registry) {c : Constructor}
    (byValue : ∀ q ∈ c.params, q.byRef = false) (few : c.params.length < 65535) :
    ofConstructor r c = .ok ⟨c, ⟨ConstructorInvoker.body r c, ConstructorInvoker.maxStack c,
      ConstructorInvoker.check_body r few⟩⟩ := by
  rw [ofConstructor, ConstructorInvoker.compile_eq_ok r byValue few]
  rfl

theorem invoke_eq (p : Program) {r : Registry} (c : Constructor) {routine : Routine}
    (made : routine.body = ConstructorInvoker.body r c)
    (few : c.params.length < 65535) (args : Array Value) :
    invoke p ⟨c, routine⟩ args =
      if args.size = c.params.length then
        (ConstructorInvoker.answer p c args).mapError ExecError.toInvokeError
      else throw (.argumentCount (p.registry.constructorLabel c) c.params.length args.size) := by
  have counted : invoke p ⟨c, routine⟩ args =
      Run.ofExcept (exactCount (p.registry.constructorLabel c) c.params.length args.size) >>=
        fun _ => ConstructorInvoker.invoke p ⟨c, routine⟩ args := rfl
  rw [counted, ConstructorInvoker.invoke_eq_answer p c made few, exactCount_bind]

theorem invoke_eq_invoke (p : Program) {r : Registry} {c : Constructor}
    (declared : c.declaring ≠ .void) (few : c.params.length < 65535)
    (typed : ∀ q ∈ c.params, q.type ≠ .void) {routine : Routine}
    (made : routine.body = ConstructorInvoker.body r c) (args : Array Value) :
    invoke p ⟨c, routine⟩ args = c.invoke p args := by
  rw [invoke_eq p c made few args]
  by_cases count : args.size = c.params.length
  · rw [if_pos count, ConstructorInvoker.mapError_answer p declared few typed count]
  · rw [if_neg count, Constructor.invoke, unboxArguments_of_ne _ _ count, Run.throw_bind]

/-- A constructor's façade creates what invocation by descriptor creates, with the same effects and
the same failures, and what it creates is new. -/
theorem invoke_eq_constructor_invoke (r : Registry) {c : Constructor}
    (declared : c.declaring ≠ .void) (byValue : ∀ q ∈ c.params, q.byRef = false)
    (few : c.params.length < 65535) (typed : ∀ q ∈ c.params, q.type ≠ .void) :
    ∃ x, ofConstructor r c = .ok x ∧
      ∀ p args before,
        x.invoke p args before = c.invoke p args before ∧
        ∀ v after, x.invoke p args before = (.ok v, after) → c.Creates before after v := by
  refine ⟨_, ofConstructor_eq_ok r byValue few, fun p args before => ?_⟩
  rw [invoke_eq_invoke p declared few typed rfl args]
  exact ⟨rfl, fun v after result => Constructor.invoke_creates result⟩

/-- The constructor's instance is the first object and the box of the interval the second. -/
theorem invoke_interval_make :
    Interval.make.declaring ≠ .void ∧ (∀ q ∈ Interval.make.params, q.byRef = false) ∧
      Interval.make.params.length < 65535 ∧ (∀ q ∈ Interval.make.params, q.type ≠ .void) ∧
      ∃ x, ofConstructor {} Interval.make = .ok x ∧
        x.invoke Interval.program #[.int32 3, .int32 4] {} =
          (.ok (.object ⟨.structType 1, 1⟩),
            { objects := #[[.int32 3, .int32 4], [.int32 3, .int32 4]] }) ∧
        Interval.make.Creates {}
          { objects := #[[.int32 3, .int32 4], [.int32 3, .int32 4]] }
          (.object ⟨.structType 1, 1⟩) := by
  have declared : Interval.make.declaring ≠ .void := by decide
  have byValue : ∀ q ∈ Interval.make.params, q.byRef = false := by decide
  have few : Interval.make.params.length < 65535 := by decide
  have typed : ∀ q ∈ Interval.make.params, q.type ≠ .void := by decide
  obtain ⟨x, made, agrees⟩ := invoke_eq_constructor_invoke {} declared byValue few typed
  obtain ⟨same, creates⟩ := agrees Interval.program #[.int32 3, .int32 4] {}
  have result : x.invoke Interval.program #[.int32 3, .int32 4] {} =
      (.ok (.object ⟨.structType 1, 1⟩),
        { objects := #[[.int32 3, .int32 4], [.int32 3, .int32 4]] }) := same.trans rfl
  exact ⟨declared, byValue, few, typed, x, made, result, creates _ _ result⟩

end ConstructorFacade

namespace MethodFacade

/-- A method's façade answers as invocation by descriptor does, with the same effects and the same
failures, and a struct comes in a new box. -/
theorem invoke_eq_method_invoke (r : Registry) {m : Method}
    (byValue : ∀ q ∈ m.params, q.byRef = false) (few : m.params.length < 65535)
    (typed : ∀ q ∈ m.params, q.type ≠ .void) :
    ∃ x, ofMethod r m = .ok x ∧
      ∀ p : Program, p.bodies.ReturnReferences → ∀ this args before,
        x.invoke p this args before = m.invoke p this args before ∧
        (m.returns.isStruct = true →
          ∀ v after, x.invoke p this args before = (.ok v, after) →
            ∃ middle, v.NewBox m.returns middle after) := by
  refine ⟨_, ofMethod_eq_ok r .checked byValue few, fun p references this args before => ?_⟩
  rw [invoke_eq_invoke references few typed rfl this args]
  exact ⟨rfl, fun struct v after result => Method.invoke_newBox struct result⟩

/-- An axis is the only object, and the box of the interval comes after it. -/
theorem invoke_interval_between :
    (∀ q ∈ Interval.between.params, q.byRef = false) ∧ Interval.between.params.length < 65535 ∧
      (∀ q ∈ Interval.between.params, q.type ≠ .void) ∧
      Interval.program.bodies.ReturnReferences ∧ Interval.between.returns.isStruct = true ∧
      ∃ x, ofMethod {} Interval.between = .ok x ∧
        x.invoke Interval.program (.object ⟨.classType 0, 0⟩) #[.int32 3, .int32 4]
            { objects := #[[]] } =
          (.ok (.object ⟨.structType 1, 1⟩), { objects := #[[], [.int32 3, .int32 4]] }) ∧
        ∃ middle, (Value.object ⟨.structType 1, 1⟩).NewBox (.structType 1) middle
          { objects := #[[], [.int32 3, .int32 4]] } := by
  have byValue : ∀ q ∈ Interval.between.params, q.byRef = false := by decide
  have few : Interval.between.params.length < 65535 := by decide
  have typed : ∀ q ∈ Interval.between.params, q.type ≠ .void := by decide
  have references := Interval.returnReferences
  have struct : Interval.between.returns.isStruct = true := rfl
  obtain ⟨x, made, agrees⟩ := invoke_eq_method_invoke {} byValue few typed
  obtain ⟨same, boxed⟩ := agrees Interval.program references (.object ⟨.classType 0, 0⟩)
    #[.int32 3, .int32 4] { objects := #[[]] }
  have result : x.invoke Interval.program (.object ⟨.classType 0, 0⟩) #[.int32 3, .int32 4]
      { objects := #[[]] } =
      (.ok (.object ⟨.structType 1, 1⟩), { objects := #[[], [.int32 3, .int32 4]] }) :=
    same.trans rfl
  exact ⟨byValue, few, typed, references, struct, x, made, result, boxed struct _ _ result⟩

end MethodFacade

end MemberAccess
