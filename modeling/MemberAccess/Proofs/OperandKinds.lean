import MemberAccess.Proofs.CheckedRuns
import MemberAccess.Proofs.FieldAgreement

/-!
Operands of compiled invokers. The check follows only how deep the stack is; that the entries are
of the kinds that the instructions want is up to the code of the invokers. No fault of the machine
comes up in it, as long as members give references where their types are no value types.
-/

namespace MemberAccess

open Code Invoker

namespace Code

/-- Whether an error comes from a member or a conversion, and not from the machine. -/
def ExecError.IsFailure : ExecError → Prop
  | fault _ => False
  | failure _ => True

theorem ExecM.run_ends_of_yields {x : RunM α} {P : α → Prop} (yields : x.Yields P) :
    (ExecM.run x).Ends P ExecError.IsFailure := by
  intro h
  simp only [ExecM.run, Run.mapError]
  cases result : x h with
  | mk outcome after =>
    cases outcome with
    | error e => exact True.intro
    | ok a => exact yields h a after result

/-- How the call of a routine on one store stays free of everything that is the machine's own: its
arguments are accepted, it never faults, `ldelem.ref` finds a number on top of an array argument,
and what the call raises a member or a conversion has raised. -/
structure Routine.Clean (p : Program) (f : Routine) (args : Array Argument) (call : RunM α)
    (before : Heap) : Prop where
  accepted : f.checkArguments args = .ok ()
  faultless : ∀ x after, f.runChecked p args before ≠ (.error (.fault x), after)
  elements : ∀ k m after, f.body.code[k]? = some .ldelemRef →
    exec p f.signature.returnsValue args (f.body.code.toList.take k) (f.start p.registry) before =
      (.ok m, after) →
    ∃ n items below, m.stack = .slot (.int32 n) :: .items items :: below
  raised : ∀ e after, call before = (.error e, after) →
    f.runChecked p args before = (.error (.failure e), after)

namespace Routine.Clean

variable {p : Program} {f : Routine} {args : Array Argument} {before : Heap}

/-- A routine that runs an answer without faults is clean where the call is that answer. -/
theorem of_answer {answer : ExecM α} {result : α → Option Value} {call : RunM α}
    (accepted : f.checkArguments args = .ok ())
    (runs : f.runChecked p args = answer >>= fun a => pure (result a))
    (called : call = answer.mapError ExecError.toInvokeError)
    (faultless : ∀ x after, answer before ≠ (.error (.fault x), after))
    (elements : ∀ k m after, f.body.code[k]? = some .ldelemRef →
      exec p f.signature.returnsValue args (f.body.code.toList.take k) (f.start p.registry) before =
        (.ok m, after) →
      ∃ n items below, m.stack = .slot (.int32 n) :: .items items :: below) :
    f.Clean p args call before := by
  refine ⟨accepted, fun x after faulted => ?_, elements, fun e after raised => ?_⟩
  · rw [runs, Run.bind_apply] at faulted
    cases ended : answer before with
    | mk outcome middle =>
      rw [ended] at faulted
      cases outcome with
      | ok a => cases faulted
      | error e =>
        cases faulted
        exact faultless x after ended
  · rw [runs, Run.bind_apply]
    rw [called, Run.mapError] at raised
    cases ended : answer before with
    | mk outcome middle =>
      rw [ended] at raised
      cases outcome with
      | ok a => cases raised
      | error e =>
        cases e with
        | fault x => exact absurd ended (faultless x middle)
        | failure e =>
          cases raised
          rfl

end Routine.Clean

/-- Whether elements are taken only from argument `k`, each right behind the load of the argument
and of the index. -/
def TakesElementsOf (k : UInt16) (code : List Instr) : Prop :=
  ∀ j, code[j]? = some .ldelemRef →
    ∃ front n, code.take j = front ++ [.loadArgument k, .loadConstant n]

namespace TakesElementsOf

variable {k : UInt16} {code front rest : List Instr}

theorem of_not_mem (absent : .ldelemRef ∉ code) : TakesElementsOf k code :=
  fun _ found => absurd (List.mem_of_getElem? found) absent

theorem append (first : TakesElementsOf k front) (second : TakesElementsOf k rest) :
    TakesElementsOf k (front ++ rest) := by
  intro j found
  by_cases inside : j < front.length
  · rw [List.getElem?_append_left inside] at found
    rw [List.take_append_of_le_length (Nat.le_of_lt inside)]
    exact first j found
  · have behind : front.length ≤ j := Nat.not_lt.mp inside
    rw [List.getElem?_append_right behind] at found
    obtain ⟨front', n, same⟩ := second _ found
    refine ⟨front ++ front', n, ?_⟩
    rw [List.take_append, List.take_of_length_le behind, same, List.append_assoc]

theorem unpackElement (first i : Nat) (q : Param) :
    TakesElementsOf k (Invoker.unpackElement k first i q) := by
  have converted : TakesElementsOf k [.coerce q.type, .storeLocal (UInt16.ofNat (first + i))] := by
    apply of_not_mem
    unfold Instr.coerce
    split <;> simp [Instr.storeLocal]
  have element : TakesElementsOf k
      [.loadArgument k, .loadConstant (Int32.ofNat i), .ldelemRef] := by
    intro j found
    rcases j with _ | _ | _ | j
    · simp [Instr.loadArgument] at found
    · simp [Instr.loadConstant] at found
    · exact ⟨[], _, rfl⟩
    · simp at found
  exact element.append converted

theorem unpackFrom (first i : Nat) (params : List Param) :
    TakesElementsOf k (Invoker.unpackFrom k first i params) := by
  induction params generalizing i with
  | nil => exact of_not_mem List.not_mem_nil
  | cons q rest ih => exact (unpackElement first i q).append (ih (i + 1))

/-- Where an element is taken, the argument and the index have just been pushed. -/
theorem operands {p : Program} {returnsValue : Bool} {args : Array Argument} {a : Array Value}
    (array : args[k.toNat]? = some (.array a)) (taken : TakesElementsOf k code) {j : Nat}
    (found : code[j]? = some .ldelemRef) {start m : Machine} {before after : Heap}
    (reached : exec p returnsValue args (code.take j) start before = (.ok m, after)) :
    ∃ n items below, m.stack = .slot (.int32 n) :: .items items :: below := by
  obtain ⟨front, n, same⟩ := taken j found
  rw [same, exec_append] at reached
  obtain ⟨m', middle, _, pushed⟩ := Run.bind_eq_ok.mp reached
  simp only [exec, step_loadArgument_array p returnsValue args _ array, step_loadConstant,
    pure_bind] at pushed
  cases pushed
  exact ⟨n, a, m'.stack, rfl⟩

end TakesElementsOf

theorem Instr.ldelemRef_not_mem_reload (first n : Nat) : ldelemRef ∉ reload first n := by
  simp [reload, Instr.loadLocal]

theorem Instr.ldelemRef_not_mem_boxValue (t : Ty) : ldelemRef ∉ boxValue t := by
  unfold boxValue
  split <;> simp

theorem Instr.ldelemRef_not_mem_castReceiver (policy : Policy) (t : Ty) :
    ldelemRef ∉ castReceiver policy t := by
  cases policy <;> simp [castReceiver]

theorem Instr.callMethod_ne_ldelemRef (m : Method) : callMethod m ≠ ldelemRef := by
  unfold callMethod
  split <;> simp

end Code

/-- What is handed over faults only on an unboxed value of a type that is no value type. -/
theorem Slot.handOver_ends (r : Registry) {s : Slot} {t : Ty}
    (reference : t.isValueType = false → ∃ v, s = .ref v) :
    (s.handOver r t).Ends (fun _ => True) ExecError.IsFailure := by
  unfold Slot.handOver
  by_cases valueType : t.isValueType
  · rw [if_pos valueType]
    exact ExecM.run_ends_of_yields (.trivial _)
  · obtain ⟨v, rfl⟩ := reference (Bool.eq_false_iff.mpr valueType)
    rw [if_neg valueType]
    exact .pure True.intro

namespace ConstructorInvoker

theorem answer_ends (p : Program) (c : Constructor) (args : Array Value) :
    (answer p c args).Ends (fun _ => True) ExecError.IsFailure := by
  refine (ExecM.run_ends_of_yields (.trivial _)).bind fun slots _ => ?_
  have reference : (c.construct p slots.toArray).Yields fun s =>
      c.declaring.isValueType = false → ∃ v, s = .ref v := by
    intro before s after result noValueType
    have created := Constructor.construct_eq_ok result
    rw [if_neg (Bool.eq_false_iff.mp noValueType)] at created
    exact ⟨_, created⟩
  exact (ExecM.run_ends_of_yields reference).bind fun s holds => s.handOver_ends _ holds

theorem takesElementsOf_code (c : Constructor) : TakesElementsOf 0 (code c) := by
  refine .append (.append (.append (.append ?_ ?_) ?_) ?_) ?_
  · rw [unpack_eq_unpackFrom]
    exact .unpackFrom 1 0 c.params
  · exact .of_not_mem (Instr.ldelemRef_not_mem_reload 1 _)
  · exact .of_not_mem (by simp [Instr.storeLocal, Instr.loadLocal])
  · exact .of_not_mem (Instr.ldelemRef_not_mem_boxValue _)
  · exact .of_not_mem (by simp)

theorem clean_of_compile (p : Program) {r : Registry} {c : Constructor} {i : ConstructorInvoker}
    (compiled : compile r c = .ok i) (args : Array Value) (before : Heap) :
    i.routine.Clean p #[.array args] (i.invoke p args) before := by
  obtain ⟨made, same, few⟩ := of_compile compiled
  refine .of_answer (checkArguments_eq_ok c made args) (runChecked_eq_answer p c made few args) ?_
    (fun x after => (answer_ends p c args).of_error) fun k m after found reached => ?_
  · rw [same]
    exact invoke_eq_answer p c made few args
  · have taken := takesElementsOf_code c
    rw [made] at found reached
    exact taken.operands rfl (by simpa [body] using found) reached

end ConstructorInvoker

namespace MethodInvoker

theorem answer_ends {p : Program} (references : p.bodies.ReturnReferences) (m : Method)
    (policy : Policy) (this : Value) (args : Array Value) :
    (answer p m policy this args).Ends (fun _ => True) ExecError.IsFailure := by
  refine (ExecM.run_ends_of_yields (.trivial _)).bind fun slots _ => ?_
  by_cases noResult : m.returns.isVoid
  · refine (ExecM.run_ends_of_yields (.trivial _)).bind fun s _ => ?_
    rw [if_pos noResult]
    exact .pure True.intro
  · have reference : (m.enter p policy this slots).Yields fun s =>
        m.returns.isValueType = false → ∃ v, s = .ref v := by
      intro before s after result noValueType
      have isReference : m.returns.isReferenceType = true := by
        simp [Ty.isReferenceType_eq, noResult, noValueType]
      exact Method.enter_yields references isReference policy this slots before s after result
    refine (ExecM.run_ends_of_yields reference).bind fun s holds => ?_
    rw [if_neg noResult]
    exact s.handOver_ends _ holds

theorem takesElementsOf_code (m : Method) (policy : Policy) :
    TakesElementsOf 1 (code m policy) := by
  refine .append (.append (.append (.append (.append ?_ ?_) ?_) ?_) ?_) ?_
  · rw [unpack_eq_unpackFrom]
    exact .unpackFrom 0 0 m.params
  · apply TakesElementsOf.of_not_mem
    unfold receiver
    split <;> simp [Instr.loadArgument, Instr.ldelemRef_not_mem_castReceiver]
  · exact .of_not_mem (Instr.ldelemRef_not_mem_reload 0 _)
  · exact .of_not_mem (by simp [(Instr.callMethod_ne_ldelemRef m).symm])
  · apply TakesElementsOf.of_not_mem
    unfold result
    split <;> simp [Instr.ldelemRef_not_mem_boxValue]
  · exact .of_not_mem (by simp)

theorem clean_of_compile {p : Program} (references : p.bodies.ReturnReferences) {r : Registry}
    {m : Method} {policy : Policy} {i : MethodInvoker} (compiled : compile r m policy = .ok i)
    (this : Value) (args : Array Value) (before : Heap) :
    i.routine.Clean p #[.value this, .array args] (i.invoke p this args) before := by
  obtain ⟨made, same, few⟩ := of_compile compiled
  refine .of_answer (checkArguments_eq_ok m policy made this args)
    (runChecked_eq_answer p m policy made few this args) ?_
    (fun x after => (answer_ends references m policy this args).of_error)
    fun k k' after found reached => ?_
  · rw [same]
    exact invoke_eq_answer p m policy made few this args
  · have taken := takesElementsOf_code m policy
    rw [made] at found reached
    exact taken.operands rfl (by simpa [body] using found) reached

end MethodInvoker

namespace Field

variable {r : Registry} {f : Field}

/-- Whether what a read finds is a reference, if the type of the field is no value type: in the cell
of a static field, or in the slot of a receiver that the field accepts, as far as there is one. -/
def HoldsReference (r : Registry) (f : Field) (target : Value) (h : Heap) : Prop :=
  f.type.isValueType = false →
    match f.storage with
    | .static => ∀ s, h.static? f = some s → ∃ v, s = .ref v
    | .slot index =>
      ∀ o s, f.receiver r target = .ok o → h.load? o index = some s → ∃ v, s = .ref v

theorem ref_of_load {target : Value} {before after : Heap} {s : Slot}
    (holds : f.HoldsReference r target before) (result : f.load r target before = (.ok s, after))
    (noValueType : f.type.isValueType = false) : ∃ v, s = .ref v := by
  have held := holds noValueType
  cases storage : f.storage with
  | static =>
    rw [storage] at held
    rw [of_load_static storage result]
    cases found : before.static? f with
    | none => exact ⟨.null, r.initial_of_isValueType noValueType⟩
    | some s => exact held s found
  | slot index =>
    rw [storage] at held
    obtain ⟨o, accepted, found⟩ := of_load_slot storage result
    exact held o s accepted found

theorem ldelemRef_not_mem_loadReceiver (f : Field) (policy : Policy) :
    Instr.ldelemRef ∉ f.loadReceiver policy := by
  unfold loadReceiver
  split <;> simp [Instr.loadArgument, Instr.ldelemRef_not_mem_castReceiver]

end Field

namespace FieldReader

theorem answer_faultless {p : Program} {f : Field} {target : Value} {before : Heap}
    (holds : f.HoldsReference p.registry target before) (policy : Policy) {x : Fault}
    {after : Heap} : answer p f policy target before ≠ (.error (.fault x), after) := by
  have read : answer p f policy target =
      ExecM.run (f.load p.registry target) >>= fun s => s.handOver p.registry f.type := by
    rw [← f.pass_bind_load p.registry policy target, ExecM.run_bind, bind_assoc]
    rfl
  intro faulted
  rw [read, Run.bind_apply] at faulted
  simp only [ExecM.run, Run.mapError] at faulted
  cases result : f.load p.registry target before with
  | mk outcome middle =>
    rw [result] at faulted
    cases outcome with
    | error e => cases faulted
    | ok s => exact (s.handOver_ends _ (f.ref_of_load holds result)).of_error faulted

theorem ldelemRef_not_mem_code (f : Field) (policy : Policy) :
    Instr.ldelemRef ∉ code f policy := by
  simp [code, Instr.storeLocal, Instr.loadLocal, f.ldelemRef_not_mem_loadReceiver,
    Instr.ldelemRef_not_mem_boxValue]

theorem clean_of_compile {p : Program} {r : Registry} {f : Field} {policy : Policy}
    {i : FieldReader} (compiled : compile r f policy = .ok i) {target : Value} {before : Heap}
    (holds : f.HoldsReference p.registry target before) :
    i.routine.Clean p #[.value target] (i.get p target) before := by
  obtain ⟨made, same⟩ := of_compile compiled
  refine .of_answer (checkArguments_eq_ok f policy made target)
    (runChecked_eq_answer p f policy made target) ?_
    (fun x after => answer_faultless holds policy) fun k m after found => ?_
  · rw [same]
    exact get_eq_answer p f policy made target
  · rw [made] at found
    exact absurd (List.mem_of_getElem? (by simpa [body] using found))
      (ldelemRef_not_mem_code f policy)

end FieldReader

namespace FieldWriter

theorem ldelemRef_not_mem_code (f : Field) (policy : Policy) :
    Instr.ldelemRef ∉ code f policy := by
  unfold code Instr.coerce
  split <;> simp [Instr.loadArgument, f.ldelemRef_not_mem_loadReceiver]

theorem clean_of_compile (p : Program) {r : Registry} {f : Field} {policy : Policy}
    {i : FieldWriter} (compiled : compile r f policy = .ok i) (target value : Value)
    (before : Heap) :
    i.routine.Clean p #[.value target, .value value] (i.set p target value) before := by
  obtain ⟨made, same⟩ := of_compile compiled
  have ends : (ExecM.run (answer p f policy target value)).Ends (fun _ => True)
      ExecError.IsFailure :=
    ExecM.run_ends_of_yields (.trivial _)
  refine .of_answer (checkArguments_eq_ok f policy made target value)
    (runChecked_eq_answer p f policy made target value) ?_
    (fun x after => ends.of_error) fun k m after found => ?_
  · rw [same, ExecM.mapError_run]
    exact set_eq_answer p f policy made target value
  · rw [made] at found
    exact absurd (List.mem_of_getElem? (by simpa [body] using found))
      (ldelemRef_not_mem_code f policy)

end FieldWriter

/-! A note has a text, which its constructor takes and its method gives back. -/

namespace Note

def text : Field := ⟨.classType 0, 0, "Text", .string, true, false, .slot 0⟩

def make : Constructor := ⟨.classType 0, 0, [⟨"text", .string, false⟩], { isPublic := true }⟩

def read : Method := ⟨.classType 0, 0, "Read", [], .string, { isPublic := true }⟩

def registry : Registry :=
  { types := #[⟨"Note", [.object], .finished (Draft.members
      { fields := [text], constructors := [make], methods := [read], layout := [.string] })⟩] }

def program : Program where
  registry := registry
  bodies :=
    { method := fun _ frame => do
        let s ← text.load registry frame.this
        return .ref (← Run.ofExcept (s.asValue registry))
      constructor := fun _ frame => do
        text.store registry frame.this (← Run.ofExcept (frame.arg 0)) }

theorem returnReferences : program.bodies.ReturnReferences := by
  intro m frame returns
  refine .bind (.trivial _) fun s _ => .bind (.trivial _) fun v _ => ?_
  exact .pure ⟨v, rfl⟩

/-- One note. -/
def heap : Heap := { objects := #[[.ref (.string "first")]] }

def first : Value := .object ⟨.classType 0, 0⟩

theorem holdsReference : text.HoldsReference registry first heap := by
  intro _ o s accepted found
  have same : (⟨.classType 0, 0⟩ : ObjectRef) = o := Except.ok.inj accepted
  subst same
  exact ⟨_, (Option.some.inj found).symm⟩

end Note

namespace Invoker

/-- No compiled invoker meets a fault of the machine, whatever the policy, the receiver, the number
of arguments and the store, as long as method bodies give references for reference types and the
field that is read holds a reference, unless it is of a value type. -/
theorem runs_clean (p : Program) (r : Registry) :
    (∀ c i, ConstructorInvoker.compile r c = .ok i → ∀ args before,
      i.routine.Clean p #[.array args] (i.invoke p args) before) ∧
    (p.bodies.ReturnReferences →
      ∀ m policy i, MethodInvoker.compile r m policy = .ok i → ∀ this args before,
        i.routine.Clean p #[.value this, .array args] (i.invoke p this args) before) ∧
    (∀ f policy i, FieldReader.compile r f policy = .ok i → ∀ target before,
      f.HoldsReference p.registry target before →
        i.routine.Clean p #[.value target] (i.get p target) before) ∧
    (∀ f policy i, FieldWriter.compile r f policy = .ok i → ∀ target value before,
      i.routine.Clean p #[.value target, .value value] (i.set p target value) before) := by
  refine ⟨fun c i compiled => ?_, fun references m policy i compiled => ?_,
    fun f policy i compiled target before holds => ?_, fun f policy i compiled => ?_⟩
  · exact ConstructorInvoker.clean_of_compile p compiled
  · exact MethodInvoker.clean_of_compile references compiled
  · exact FieldReader.clean_of_compile compiled holds
  · exact FieldWriter.clean_of_compile p compiled

/-- The array is too short, the receiver is null, and a number is no text. -/
theorem runs_clean_note :
    Note.program.bodies.ReturnReferences ∧
      Note.text.HoldsReference Note.program.registry Note.first Note.heap ∧
      (∃ i, ConstructorInvoker.compile Note.registry Note.make = .ok i ∧
        i.routine.Clean Note.program #[.array #[]] (i.invoke Note.program #[]) Note.heap) ∧
      (∃ i, MethodInvoker.compile Note.registry Note.read .trusted = .ok i ∧
        i.routine.Clean Note.program #[.value .null, .array #[.int32 1]]
          (i.invoke Note.program .null #[.int32 1]) Note.heap) ∧
      (∃ i, FieldReader.compile Note.registry Note.text .trusted = .ok i ∧
        i.routine.Clean Note.program #[.value Note.first] (i.get Note.program Note.first)
          Note.heap) ∧
      ∃ i, FieldWriter.compile Note.registry Note.text .checked = .ok i ∧
        i.routine.Clean Note.program #[.value Note.first, .value (.int32 1)]
          (i.set Note.program Note.first (.int32 1)) Note.heap := by
  have constructor := ConstructorInvoker.compile_eq_ok Note.registry (c := Note.make)
    (by decide) (by decide)
  have method := MethodInvoker.compile_eq_ok Note.registry (m := Note.read) .trusted
    (by decide) (by decide)
  have reader := FieldReader.compile_eq_ok Note.registry Note.text .trusted
  have writer := FieldWriter.compile_eq_ok Note.registry Note.text .checked
  obtain ⟨constructors, methods, readers, writers⟩ := runs_clean Note.program Note.registry
  have called := methods Note.returnReferences
  exact ⟨Note.returnReferences, Note.holdsReference,
    ⟨_, constructor, constructors _ _ constructor _ _⟩,
    ⟨_, method, called _ _ _ method _ _ _⟩,
    ⟨_, reader, readers _ _ _ reader _ _ Note.holdsReference⟩,
    ⟨_, writer, writers _ _ _ writer _ _ _⟩⟩

end Invoker

end MemberAccess
