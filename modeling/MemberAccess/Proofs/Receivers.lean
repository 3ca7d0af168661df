import MemberAccess.Proofs.Dispatch
import MemberAccess.Proofs.EarlyFailures

/-!
How much of the receiver shows. Leaving out the check of the receiver makes no difference where the
check would let the receiver pass, and a write without the check is what access by descriptor does.
A static member never looks at its receiver, whichever way it is used.
-/

namespace MemberAccess

open Code Invoker

/-- Whether a member of `declaring` takes the receiver: null and all that derives from the type, and
a static member anything. -/
def Registry.Takes (r : Registry) (declaring : Ty) (isStatic : Bool) (this : Value) : Prop :=
  isStatic = true ∨ ∀ t, this.runtimeType? = some t → r.assignable declaring t = true

theorem Invoker.Policy.pass_of_assignable {r : Registry} {declaring : Ty} {this : Value}
    (policy : Policy)
    (derives : ∀ t, this.runtimeType? = some t → r.assignable declaring t = true) :
    policy.pass r declaring this = .ok this := by
  cases policy with
  | checked =>
    unfold Policy.pass Value.cast
    cases this with
    | null => rfl
    | _ => exact if_pos (derives _ rfl)
  | trusted => rfl

/-- A method is entered on a receiver that it takes, whatever the policy. -/
theorem Method.enter_of_takes {p : Program} {m : Method} {this : Value}
    (takes : p.registry.Takes m.declaring m.isStatic this) (policy policy' : Policy)
    (slots : List Slot) : m.enter p policy this slots = m.enter p policy' this slots := by
  unfold Method.enter
  rcases takes with static | derives
  · rw [if_pos static, if_pos static]
  · rw [policy.pass_of_assignable derives, policy'.pass_of_assignable derives]

theorem Field.pass_of_takes {r : Registry} {f : Field} {this : Value}
    (takes : r.Takes f.declaring f.isStatic this) (policy : Policy) :
    f.pass r policy this = .ok this := by
  unfold Field.pass
  rcases takes with static | derives
  · rw [if_pos static]
  · rw [policy.pass_of_assignable derives, ite_self]

namespace MethodInvoker

variable {r : Registry} {m : Method} {policy policy' : Policy} {i i' : MethodInvoker}

/-- What can be compiled under one policy can be compiled under every other. -/
theorem exists_compile (compiled : compile r m policy = .ok i) (policy' : Policy) :
    ∃ i', compile r m policy' = .ok i' := by
  obtain ⟨_, _, few⟩ := of_compile compiled
  exact ⟨_, compile_eq_ok r policy' (byValue_of_compile compiled) few⟩

theorem invoke_of_takes (compiled : compile r m policy = .ok i)
    (compiled' : compile r m policy' = .ok i') {p : Program} {this : Value}
    (takes : p.registry.Takes m.declaring m.isStatic this) (args : Array Value) :
    i.invoke p this args = i'.invoke p this args := by
  rw [invoke_of_compile compiled, invoke_of_compile compiled']
  refine bind_congr fun slots => ?_
  rw [Method.enter_of_takes takes policy policy']

end MethodInvoker

section Fields

variable {r : Registry} {f : Field} {policy policy' : Policy} {p : Program} {this : Value}

theorem FieldReader.get_of_compile {i : FieldReader} (compiled : compile r f policy = .ok i)
    (p : Program) (this : Value) :
    i.get p this = (answer p f policy this).mapError ExecError.toInvokeError := by
  obtain ⟨made, same⟩ := of_compile compiled
  rw [same, get_eq_answer p f policy made]

theorem FieldWriter.set_of_compile {i : FieldWriter} (compiled : compile r f policy = .ok i)
    (p : Program) (this value : Value) : i.set p this value = answer p f policy this value := by
  obtain ⟨made, same⟩ := of_compile compiled
  rw [same, set_eq_answer p f policy made]

theorem FieldReader.get_of_takes {i i' : FieldReader} (compiled : compile r f policy = .ok i)
    (compiled' : compile r f policy' = .ok i')
    (takes : p.registry.Takes f.declaring f.isStatic this) : i.get p this = i'.get p this := by
  rw [get_of_compile compiled, get_of_compile compiled', answer, answer,
    Field.pass_of_takes takes policy, Field.pass_of_takes takes policy']

/-- A write to a receiver that is taken is what access by descriptor does. -/
theorem FieldWriter.set_of_takes {i : FieldWriter} (compiled : compile r f policy = .ok i)
    (takes : p.registry.Takes f.declaring f.isStatic this) (value : Value) :
    i.set p this value = f.write p.registry this value := by
  rw [set_of_compile compiled, answer_of_pass p (Field.pass_of_takes takes policy)]

/-- Without the check, a write to any receiver is what access by descriptor does. -/
theorem FieldWriter.set_of_trusted {i : FieldWriter} (compiled : compile r f .trusted = .ok i)
    (p : Program) (this value : Value) : i.set p this value = f.write p.registry this value := by
  have passed : f.pass p.registry .trusted this = .ok this := ite_self _
  rw [set_of_compile compiled, answer_of_pass p passed]

end Fields

/-- Compiled with and without the check of the receiver, a method or field does the same on every
receiver that it takes, from every store and with every argument. What is written without the check
is written as by descriptor, on every receiver whatever. -/
theorem policies_agree (r : Registry) (p : Program) :
    (∀ m policy i, MethodInvoker.compile r m policy = .ok i →
      ∃ checked trusted, MethodInvoker.compile r m .checked = .ok checked ∧
        MethodInvoker.compile r m .trusted = .ok trusted ∧
        ∀ this args before, p.registry.Takes m.declaring m.isStatic this →
          checked.invoke p this args before = trusted.invoke p this args before) ∧
    (∀ f, ∃ checked trusted, FieldReader.compile r f .checked = .ok checked ∧
      FieldReader.compile r f .trusted = .ok trusted ∧
      ∀ this before, p.registry.Takes f.declaring f.isStatic this →
        checked.get p this before = trusted.get p this before) ∧
    ∀ f, ∃ checked trusted, FieldWriter.compile r f .checked = .ok checked ∧
      FieldWriter.compile r f .trusted = .ok trusted ∧
      ∀ this value before,
        (p.registry.Takes f.declaring f.isStatic this →
          checked.set p this value before = trusted.set p this value before) ∧
        trusted.set p this value before = f.write p.registry this value before := by
  refine ⟨fun m policy i compiled => ?_, fun f => ?_, fun f => ?_⟩
  · obtain ⟨checked, compiledChecked⟩ := MethodInvoker.exists_compile compiled .checked
    obtain ⟨trusted, compiledTrusted⟩ := MethodInvoker.exists_compile compiled .trusted
    refine ⟨checked, trusted, compiledChecked, compiledTrusted, fun this args before takes => ?_⟩
    rw [MethodInvoker.invoke_of_takes compiledChecked compiledTrusted takes]
  · have compiledChecked := FieldReader.compile_eq_ok r f .checked
    have compiledTrusted := FieldReader.compile_eq_ok r f .trusted
    refine ⟨_, _, compiledChecked, compiledTrusted, fun this before takes => ?_⟩
    rw [FieldReader.get_of_takes compiledChecked compiledTrusted takes]
  · have compiledChecked := FieldWriter.compile_eq_ok r f .checked
    have compiledTrusted := FieldWriter.compile_eq_ok r f .trusted
    refine ⟨_, _, compiledChecked, compiledTrusted, fun this value before => ?_⟩
    rw [FieldWriter.set_of_trusted compiledTrusted]
    refine ⟨fun takes => ?_, rfl⟩
    rw [FieldWriter.set_of_takes compiledChecked takes]

/-- An axis answers the same under both policies, and so does no axis at all. A text is written into
a text as by descriptor: without the check of the receiver it is the value that is reported. -/
theorem policies_agree_interval :
    (∃ i, MethodInvoker.compile {} Interval.between .trusted = .ok i) ∧
      Interval.program.registry.Takes Interval.between.declaring Interval.between.isStatic
        (.object ⟨.classType 0, 0⟩) ∧
      Interval.program.registry.Takes Interval.between.declaring Interval.between.isStatic .null ∧
      (∃ checked trusted, MethodInvoker.compile {} Interval.between .checked = .ok checked ∧
        MethodInvoker.compile {} Interval.between .trusted = .ok trusted ∧
        checked.invoke Interval.program (.object ⟨.classType 0, 0⟩) #[.int32 3, .int32 4]
            { objects := #[[]] } =
          trusted.invoke Interval.program (.object ⟨.classType 0, 0⟩) #[.int32 3, .int32 4]
            { objects := #[[]] } ∧
        trusted.invoke Interval.program (.object ⟨.classType 0, 0⟩) #[.int32 3, .int32 4]
            { objects := #[[]] } =
          (.ok (.object ⟨.structType 1, 1⟩), { objects := #[[], [.int32 3, .int32 4]] }) ∧
        checked.invoke Interval.program .null #[.int32 3, .int32 4] {} =
          trusted.invoke Interval.program .null #[.int32 3, .int32 4] {} ∧
        (trusted.invoke Interval.program .null #[.int32 3, .int32 4] {}).1 =
          .error (.nullReference "receiver of Axis::Between")) ∧
      ∃ trusted, FieldWriter.compile {} Shape.origin .trusted = .ok trusted ∧
        trusted.set Shape.program (.string "shape") (.string "point") {} =
          (.error (.invalidCast "Point" "String"), {}) := by
  have compiled := MethodInvoker.compile_eq_ok {} (m := Interval.between) .trusted (by decide)
    (by decide)
  have takesAxis : Interval.program.registry.Takes Interval.between.declaring
      Interval.between.isStatic (.object ⟨.classType 0, 0⟩) := by
    refine .inr fun t runtime => ?_
    cases runtime
    rfl
  have takesNull : Interval.program.registry.Takes Interval.between.declaring
      Interval.between.isStatic .null := .inr fun t runtime => by cases runtime
  obtain ⟨methods, _, _⟩ := policies_agree {} Interval.program
  obtain ⟨_, _, writers⟩ := policies_agree {} Shape.program
  obtain ⟨checked, trusted, compiledChecked, compiledTrusted, agree⟩ := methods _ _ _ compiled
  obtain ⟨_, written, _, compiledWriter, writes⟩ := writers Shape.origin
  refine ⟨⟨_, compiled⟩, takesAxis, takesNull, ⟨checked, trusted, compiledChecked, compiledTrusted,
    agree _ _ _ takesAxis, ?_, agree _ _ _ takesNull, ?_⟩, written, compiledWriter, ?_⟩
  · rw [MethodInvoker.invoke_of_compile compiledTrusted]
    rfl
  · rw [MethodInvoker.invoke_of_compile compiledTrusted]
    rfl
  · rw [(writes _ _ _).2]
    rfl

/-- Whether runs from the same store end alike, whatever their receivers are. -/
def IgnoresReceiver (call : Value → RunM α) : Prop :=
  ∀ this this' before, call this before = call this' before

namespace IgnoresReceiver

theorem const (x : RunM α) : IgnoresReceiver fun _ => x := fun _ _ _ => rfl

theorem bind {x : Value → RunM α} {f : Value → α → RunM β} (first : IgnoresReceiver x)
    (next : ∀ a, IgnoresReceiver (f · a)) : IgnoresReceiver fun this => x this >>= f this := by
  intro this this' before
  have same : x this = x this' := funext fun h => first this this' h
  show (x this >>= f this) before = (x this' >>= f this') before
  rw [same]
  exact Run.bind_congr_at fun a middle _ => next a this this' middle

end IgnoresReceiver

section StaticMethods

variable {r : Registry} {m : Method} (static : m.isStatic = true)

include static

/-- A static method is entered without a receiver, under any policy. -/
theorem Method.enter_of_static (p : Program) (policy : Policy) (this : Value) (slots : List Slot) :
    m.enter p policy this slots = m.call p .null slots.toArray := if_pos static

theorem Method.invoke_ignoresReceiver (p : Program) (args : Array Value) :
    IgnoresReceiver (m.invoke p · args) := by
  simp only [Method.invoke_eq, enter_of_static static]
  exact .const _

theorem MethodInvoker.invoke_ignoresReceiver {policy : Policy} {i : MethodInvoker}
    (compiled : compile r m policy = .ok i) (p : Program) (args : Array Value) :
    IgnoresReceiver (i.invoke p · args) := by
  simp only [invoke_of_compile compiled, Method.enter_of_static static]
  exact .const _

theorem MethodFacade.invoke_ignoresReceiver {policy : Policy} {x : MethodFacade}
    (made : ofMethod r m policy = .ok x) (p : Program) (args : Array Value) :
    IgnoresReceiver (x.invoke p · args) :=
  .bind (.const _) fun _ => MethodInvoker.invoke_ignoresReceiver static (of_ofMethod made) p args

end StaticMethods

section StaticFields

variable {r : Registry} {f : Field} (static : f.isStatic = true)

include static

theorem Field.storage_of_isStatic : f.storage = .static := by
  cases storage : f.storage with
  | static => rfl
  | slot index =>
    rw [isStatic_of_slot storage] at static
    cases static

theorem Field.load_ignoresReceiver : IgnoresReceiver (f.load r) := by
  simp only [IgnoresReceiver, load_static (storage_of_isStatic static), implies_true]

theorem Field.store_ignoresReceiver (s : Slot) : IgnoresReceiver (f.store r · s) := by
  simp only [store, storage_of_isStatic static]
  exact .const _

theorem Field.read_ignoresReceiver : IgnoresReceiver (f.read r) :=
  .bind (load_ignoresReceiver static) fun s => .const (s.box r f.type)

theorem Field.write_ignoresReceiver (value : Value) : IgnoresReceiver (f.write r · value) :=
  .bind (.const _) fun s => store_ignoresReceiver static s

theorem FieldReader.get_ignoresReceiver {policy : Policy} {i : FieldReader}
    (compiled : compile r f policy = .ok i) (p : Program) : IgnoresReceiver (i.get p) := by
  -- The receiver is on the stack when the field is loaded, and the load drops it.
  have loads : IgnoresReceiver fun this => (answer p f policy this).mapError
      ExecError.toInvokeError := by
    simp only [answer, Field.pass_of_takes (.inl static), Run.mapError_bind, ExecM.mapError_run,
      Run.ofExcept_ok, pure_bind]
    exact .bind (Field.load_ignoresReceiver static) fun _ => .const _
  intro this this' before
  rw [get_of_compile compiled, get_of_compile compiled]
  exact loads this this' before

theorem FieldWriter.set_ignoresReceiver {policy : Policy} {i : FieldWriter}
    (compiled : compile r f policy = .ok i) (p : Program) (value : Value) :
    IgnoresReceiver (i.set p · value) := by
  intro this this' before
  simp only [set_of_takes compiled (.inl static)]
  exact Field.write_ignoresReceiver static value this this' before

end StaticFields

/-- A static method or field does the same on every receiver, from every store and with the same
arguments: invoked by descriptor, through a compiled routine under either policy, or through a
façade. -/
theorem static_members_ignore_receiver (r : Registry) (p : Program) :
    (∀ m : Method, m.isStatic = true → ∀ args,
      IgnoresReceiver (m.invoke p · args) ∧
      ∀ policy,
        (∀ i, MethodInvoker.compile r m policy = .ok i → IgnoresReceiver (i.invoke p · args)) ∧
        ∀ x, MethodFacade.ofMethod r m policy = .ok x → IgnoresReceiver (x.invoke p · args)) ∧
    ∀ f : Field, f.isStatic = true →
      IgnoresReceiver (f.load p.registry) ∧ (∀ s, IgnoresReceiver (f.store p.registry · s)) ∧
      IgnoresReceiver (f.read p.registry) ∧ (∀ v, IgnoresReceiver (f.write p.registry · v)) ∧
      ∀ policy, ∃ reader writer,
        FieldReader.compile r f policy = .ok reader ∧
        FieldWriter.compile r f policy = .ok writer ∧
        FieldFacade.ofField r f policy = .ok ⟨reader, writer⟩ ∧
        IgnoresReceiver (reader.get p) ∧ (∀ v, IgnoresReceiver (writer.set p · v)) ∧
        IgnoresReceiver (FieldFacade.read p ⟨reader, writer⟩) ∧
        ∀ v, IgnoresReceiver (FieldFacade.write p ⟨reader, writer⟩ · v) := by
  refine ⟨fun m static args => ⟨Method.invoke_ignoresReceiver static p args, fun policy =>
    ⟨fun i compiled => MethodInvoker.invoke_ignoresReceiver static compiled p args,
      fun x made => MethodFacade.invoke_ignoresReceiver static made p args⟩⟩, fun f static => ?_⟩
  refine ⟨Field.load_ignoresReceiver static, Field.store_ignoresReceiver static,
    Field.read_ignoresReceiver static, Field.write_ignoresReceiver static, fun policy => ?_⟩
  have compiledReader := FieldReader.compile_eq_ok r f policy
  have compiledWriter := FieldWriter.compile_eq_ok r f policy
  have reads := FieldReader.get_ignoresReceiver static compiledReader p
  have writes := FieldWriter.set_ignoresReceiver static compiledWriter p
  exact ⟨_, _, compiledReader, compiledWriter, FieldFacade.ofField_eq_ok r f policy, reads, writes,
    reads, writes⟩

/-! A mint stamps coins and counts them, and both without an instance. -/

namespace Mint

def stamp : Method :=
  ⟨.classType 0, 0, "Stamp", [⟨"value", .int32, false⟩], .string,
    { isPublic := true, isStatic := true, isVirtual := true }⟩

def stamped : Field := ⟨.classType 0, 0, "Stamped", .int32, true, false, .static⟩

/-- A body that gives its receiver away if there is one. -/
def program : Program where
  registry :=
    { types := #[⟨"Mint", [.object], .finished
        (Draft.members { fields := [stamped], methods := [stamp] })⟩] }
  bodies :=
    { method := fun _ frame =>
        pure (.ref (if frame.this.isNull then .string "stamped" else frame.this))
      constructor := fun _ _ => pure () }

end Mint

/-- A mint stamps for a text as it does for nobody, although the method is virtual, and refuses null
as the value of a coin for either of them. -/
theorem static_members_ignore_receiver_mint :
    Mint.stamp.isStatic = true ∧ Mint.stamp.isVirtual = true ∧ Mint.stamped.isStatic = true ∧
      (∃ i, MethodInvoker.compile {} Mint.stamp .trusted = .ok i ∧
        i.invoke Mint.program (.string "coin") #[.int32 5] {} =
          i.invoke Mint.program .null #[.int32 5] {} ∧
        i.invoke Mint.program .null #[.int32 5] {} = (.ok (.string "stamped"), {}) ∧
        i.invoke Mint.program (.string "coin") #[.null] {} =
          i.invoke Mint.program .null #[.null] {}) ∧
      (∃ x, MethodFacade.ofMethod {} Mint.stamp .checked = .ok x ∧
        x.invoke Mint.program (.string "coin") #[] {} = x.invoke Mint.program .null #[] {}) ∧
      ∃ reader writer, FieldReader.compile {} Mint.stamped .checked = .ok reader ∧
        FieldWriter.compile {} Mint.stamped .checked = .ok writer ∧
        writer.set Mint.program (.bool true) (.int32 7) {} =
          writer.set Mint.program .null (.int32 7) {} ∧
        reader.get Mint.program (.bool true) { statics := [(Mint.stamped, .int32 7)] } =
          reader.get Mint.program .null { statics := [(Mint.stamped, .int32 7)] } := by
  have static : Mint.stamp.isStatic = true := rfl
  have static' : Mint.stamped.isStatic = true := rfl
  have compiled := MethodInvoker.compile_eq_ok {} (m := Mint.stamp) .trusted (by decide) (by decide)
  have made := MethodFacade.ofMethod_eq_ok {} (m := Mint.stamp) .checked (by decide) (by decide)
  obtain ⟨methods, fields⟩ := static_members_ignore_receiver {} Mint.program
  have invokes (args : Array Value) := ((methods _ static args).2 .trusted).1 _ compiled
  have calls := ((methods _ static #[]).2 .checked).2 _ made
  obtain ⟨reader, writer, compiledReader, compiledWriter, _, reads, writes, _⟩ :=
    (fields _ static').2.2.2.2 .checked
  refine ⟨static, rfl, static', ⟨_, compiled, invokes _ _ _ _, ?_, invokes _ _ _ _⟩,
    ⟨_, made, calls _ _ _⟩, reader, writer, compiledReader, compiledWriter, writes _ _ _ _,
    reads _ _ _⟩
  rw [MethodInvoker.invoke_of_compile compiled]
  rfl

end MemberAccess
