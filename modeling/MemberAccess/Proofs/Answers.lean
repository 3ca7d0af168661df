import MemberAccess.Proofs.Compilation

/-!
What compiled routines answer. Each kind of member has one definition that says so without a stack
or locals; running the routine of the member, whatever the policy, is running that definition.
-/

namespace MemberAccess

open Code Invoker

/-- What a routine hands over for a slot of type `t`: value types are boxed, and anything else has
to be a reference already. -/
def Slot.handOver (r : Registry) (s : Slot) (t : Ty) : ExecM Value :=
  if t.isValueType then ExecM.run (s.box r t)
  else
    match s with
    | .ref v => pure v
    | s => .fail (.notReference (s.kindText r))

/-- Runs a method behind the receiver check of a policy. -/
def Method.enter (p : Program) (m : Method) (policy : Policy) (this : Value) (slots : List Slot) :
    RunM Slot :=
  if m.isStatic then m.call p .null slots.toArray
  else do
    let receiver ← Run.ofExcept (policy.pass p.registry m.declaring this)
    m.callVirtual p receiver slots.toArray

/-- The receiver that a field instruction gets to see; static fields take any. -/
def Field.pass (r : Registry) (f : Field) (policy : Policy) (this : Value) :
    Except InvokeError Value :=
  if f.isStatic then .ok this else policy.pass r f.declaring this

namespace ConstructorInvoker

def answer (p : Program) (c : Constructor) (args : Array Value) : ExecM Value := do
  let slots ← ExecM.run (convertFrom p.registry args 0 c.params)
  let created ← ExecM.run (c.construct p slots.toArray)
  created.handOver p.registry c.declaring

end ConstructorInvoker

namespace MethodInvoker

def answer (p : Program) (m : Method) (policy : Policy) (this : Value) (args : Array Value) :
    ExecM Value := do
  let slots ← ExecM.run (convertFrom p.registry args 0 m.params)
  let result ← ExecM.run (m.enter p policy this slots)
  if m.returns.isVoid then return .null else result.handOver p.registry m.returns

end MethodInvoker

namespace FieldReader

def answer (p : Program) (f : Field) (policy : Policy) (target : Value) : ExecM Value := do
  let receiver ← ExecM.run (.ofExcept (f.pass p.registry policy target))
  let s ← ExecM.run (f.load p.registry receiver)
  s.handOver p.registry f.type

end FieldReader

namespace FieldWriter

/-- The receiver is checked before the value is converted. -/
def answer (p : Program) (f : Field) (policy : Policy) (target value : Value) : RunM Unit := do
  let receiver ← Run.ofExcept (f.pass p.registry policy target)
  let s ← value.coerce p.registry f.type
  f.store p.registry receiver s

end FieldWriter

namespace Code

section

variable (p : Program) (args : Array Argument)

/-- Code that ends by returning a slot of type `t` hands the slot over. -/
theorem exec_boxValue_finish (t : Ty) (s : Slot) (m : Machine) :
    exec p true args (Instr.boxValue t ++ [.ret]) (m.push s) =
      s.handOver p.registry t >>= fun v => pure (m.finish v) := by
  unfold Instr.boxValue Slot.handOver
  by_cases valueType : t.isValueType
  · simp only [if_pos valueType, exec_append, exec_singleton, step_box, step_ret, bind_assoc,
      pure_bind]
  · simp only [if_neg valueType, List.nil_append, exec_singleton]
    cases s with
    | ref v => rw [step_ret, pure_bind]
    | _ => rfl

/-- A routine that has to return a value ends with what it hands over for the slot on top. -/
theorem exec_boxValue_ret {f : Routine} (returns : f.signature.returnsValue = true) (t : Ty)
    (s : Slot) (m : Machine) :
    exec p true args (Instr.boxValue t ++ [.ret]) (m.push s) >>= f.resultOf =
      s.handOver p.registry t >>= fun v => pure (some v) := by
  have finished (v : Value) : f.resultOf (m.finish v) = pure (some v) := by
    simp [Routine.resultOf, Machine.finish, returns]
  simp only [exec_boxValue_finish, bind_assoc, pure_bind, finished]

/-- Storing a slot into local 0 and loading it again leaves the slot on the stack. -/
theorem exec_stage (returnsValue : Bool) (s : Slot) {m : Machine} (bound : 0 < m.locals.size) :
    exec p returnsValue args [.storeLocal 0, .loadLocal 0] (m.push s) =
      pure ((m.setLocal 0 s).push s) := by
  have stored : step p returnsValue args (.storeLocal 0) (m.push s) = pure (m.setLocal 0 s) :=
    step_storeLocal p returnsValue args m s bound
  have loaded : step p returnsValue args (.loadLocal 0) (m.setLocal 0 s) =
      pure ((m.setLocal 0 s).push s) :=
    step_loadLocal p returnsValue args _ (Machine.locals_setLocal m s bound)
  simp only [exec, stored, loaded, pure_bind, bind_pure]

end

namespace Routine

/-- Arguments that fit the signature of a body reach its code. -/
theorem checkArguments_eq_ok {f : Routine} {b : Body} (made : f.body = b) {args : Array Argument}
    (count : args.size = b.signature.arity)
    (kinds : misfit? b.signature.params args.toList = none) : f.checkArguments args = .ok () := by
  subst made
  simp [checkArguments, signature, count, kinds]

theorem run_of_ok {p : Program} {f : Routine} {args : Array Argument}
    (accepted : f.checkArguments args = .ok ()) :
    f.run p args = (f.runChecked p args).mapError ExecError.toInvokeError := by
  rw [run, accepted]
  rfl

theorem runChecked_eq {p : Program} {f : Routine} {b : Body} (made : f.body = b)
    {args : Array Argument} {answer : ExecM (Option Value)}
    (runs : exec p b.signature.returnsValue args b.code.toList
      { locals := b.locals.map p.registry.initial } >>= f.resultOf = answer) :
    f.runChecked p args = answer := by
  subst made
  exact runs

end Routine

end Code

namespace Invoker

/-- Reloading what has been unpacked puts it on the stack, whatever lies there by then. -/
theorem exec_reload_setLocals (p : Program) (returnsValue : Bool) (args : Array Argument)
    {first : Nat} {slots : List Slot} {n : Nat} (count : slots.length = n) {m m' : Machine}
    (same : m'.locals = (m.setLocals first slots).locals)
    (fits : first + n ≤ m.locals.size) (small : m.locals.size ≤ 65536) (rest : List Instr) :
    exec p returnsValue args (reload first n ++ rest) m' =
      exec p returnsValue args rest (m'.pushAll slots) := by
  subst count
  have held (j : Nat) (bound : j < slots.length) : m'.locals[first + j]? = some slots[j] := by
    rw [same]
    exact Machine.locals_setLocals m fits bound
  have reloaded : exec p returnsValue args (reload first slots.length) m' =
      pure (m'.pushAll slots) :=
    exec_reload p returnsValue first slots m' held (Nat.le_trans fits small)
  rw [exec_append, reloaded, pure_bind]

end Invoker

namespace ConstructorInvoker

variable (p : Program) (c : Constructor)

theorem exec_code {f : Routine} (returns : f.signature.returnsValue = true) (args : Array Value)
    {m : Machine} (size : m.locals.size = c.params.length + 1) (few : c.params.length < 65535) :
    exec p true #[.array args] (code c) m >>= f.resultOf =
      answer p c args >>= fun v => pure (some v) := by
  have fits : 1 + c.params.length ≤ m.locals.size := by omega
  have small : m.locals.size ≤ 65536 := by omega
  have code_eq : code c = unpackFrom 0 1 0 c.params ++ (reload 1 c.params.length ++
      ([.newobj c] ++ ([.storeLocal 0, .loadLocal 0] ++
        (Instr.boxValue c.declaring ++ [.ret])))) := by
    simp [code, unpack_eq_unpackFrom]
  have array : #[Argument.array args][(0 : UInt16).toNat]? = some (.array args) := rfl
  have unpacked := exec_unpackFrom p true array 1 0 c.params m fits small
  rw [code_eq, exec_append, unpacked, answer]
  simp only [bind_assoc, pure_bind]
  refine ((length_convertFrom p.registry args 0 c.params).mapError _).bind_congr
    fun slots count => ?_
  rw [exec_reload_setLocals p true _ count rfl fits small, exec_append, exec_singleton,
    step_newobj p true _ _ c slots count]
  simp only [bind_assoc, pure_bind]
  refine bind_congr fun created => ?_
  have bound : 0 < (m.setLocals (1 + 0) slots).locals.size := by
    rw [Machine.size_setLocals]
    omega
  rw [exec_append, exec_stage p _ true created bound, pure_bind]
  exact exec_boxValue_ret p _ returns c.declaring created _

section

variable {r : Registry} {routine : Routine} (made : routine.body = body r c)

include made

theorem checkArguments_eq_ok (args : Array Value) :
    routine.checkArguments #[.array args] = .ok () :=
  Routine.checkArguments_eq_ok made rfl rfl

theorem runChecked_eq_answer (few : c.params.length < 65535) (args : Array Value) :
    routine.runChecked p #[.array args] = answer p c args >>= fun v => pure (some v) := by
  have returns : routine.signature.returnsValue = true := congrArg (·.signature.returnsValue) made
  have size : ((body r c).locals.map p.registry.initial).size = c.params.length + 1 := by
    simp [body]
  have runs := exec_code p c returns args (m := ⟨[], _, none⟩) size few
  exact Routine.runChecked_eq made runs

/-- A compiled constructor answers as its definition says, for any registry it was compiled in. -/
theorem invoke_eq_answer (few : c.params.length < 65535) (args : Array Value) :
    invoke p ⟨c, routine⟩ args = (answer p c args).mapError ExecError.toInvokeError := by
  rw [invoke, Routine.run_of_ok (checkArguments_eq_ok c made args),
    runChecked_eq_answer p c made few, Run.mapError_bind, bind_assoc]
  exact bind_pure _

end

end ConstructorInvoker

namespace MethodInvoker

variable (p : Program) (m : Method)

theorem exec_receiver (policy : Policy) (this : Value) (args : Array Value) (k : Machine) :
    exec p true #[.value this, .array args] (receiver m policy) k =
      if m.isStatic then pure k
      else ExecM.run (.ofExcept (policy.pass p.registry m.declaring this)) >>= fun v =>
        pure (k.push (.ref v)) := by
  unfold receiver
  by_cases static : m.isStatic
  · rw [if_pos static, if_pos static]
    rfl
  · have found : #[Argument.value this, .array args][(0 : UInt16).toNat]? =
        some (.value this) := rfl
    rw [if_neg static, if_neg static, exec, step_loadArgument_value p true _ k found, pure_bind,
      exec_castReceiver]

/-- Receiver, arguments and call, on a machine whose locals hold the converted arguments. -/
theorem exec_enter (policy : Policy) (this : Value) (args : Array Value) {slots : List Slot}
    (count : slots.length = m.params.length) (k : Machine)
    (fits : 0 + m.params.length ≤ k.locals.size) (small : k.locals.size ≤ 65536)
    (rest : List Instr) :
    exec p true #[.value this, .array args]
        (receiver m policy ++ (reload 0 m.params.length ++ ([.callMethod m] ++ rest)))
        (k.setLocals 0 slots) =
      ExecM.run (m.enter p policy this slots) >>= fun result =>
        exec p true #[.value this, .array args] rest
          ((k.setLocals 0 slots).pushResult m.returns result) := by
  rw [exec_append, exec_receiver, Method.enter]
  by_cases static : m.isStatic
  · rw [if_pos static, if_pos static, pure_bind,
      exec_reload_setLocals p true _ count rfl fits small, exec_append, exec_singleton,
      Instr.callMethod, if_pos static, step_call p true _ _ static slots count, bind_assoc]
    simp only [pure_bind]
  · rw [if_neg static, if_neg static, ExecM.run_bind, bind_assoc, bind_assoc]
    refine bind_congr fun receiver => ?_
    have isInstance : m.isStatic = false := Bool.eq_false_iff.mpr static
    -- The receiver is on the stack already, and the arguments come to lie on top of it.
    have same : ((k.setLocals 0 slots).push (.ref receiver)).locals =
        (k.setLocals 0 slots).locals := rfl
    rw [pure_bind, exec_reload_setLocals p true _ count same fits small, exec_append,
      exec_singleton, Instr.callMethod, if_neg static,
      step_callvirt p true _ _ isInstance receiver slots count, bind_assoc]
    simp only [pure_bind]

theorem exec_result_ret {f : Routine} (returns : f.signature.returnsValue = true)
    (args : Array Argument) (s : Slot) (k : Machine) :
    exec p true args (result m ++ [.ret]) (k.pushResult m.returns s) >>= f.resultOf =
      (if m.returns.isVoid then return .null else s.handOver p.registry m.returns) >>= fun v =>
        pure (some v) := by
  unfold result Machine.pushResult
  by_cases noResult : m.returns.isVoid
  · simp only [if_pos noResult]
    have null : step p true args .ldnull k = pure (k.push .null) := by simp [step, stepPlain]
    have finished : f.resultOf (k.finish .null) = pure (some .null) := by
      simp [Routine.resultOf, Machine.finish, returns]
    rw [exec_append, exec_singleton, null, pure_bind, exec_singleton, step_ret, pure_bind, finished,
      pure_bind]
  · simp only [if_neg noResult]
    exact exec_boxValue_ret p args returns m.returns s k

theorem exec_code (policy : Policy) {f : Routine} (returns : f.signature.returnsValue = true)
    (this : Value) (args : Array Value) {k : Machine} (size : k.locals.size = m.params.length)
    (few : m.params.length < 65535) :
    exec p true #[.value this, .array args] (code m policy) k >>= f.resultOf =
      answer p m policy this args >>= fun v => pure (some v) := by
  have fits : 0 + m.params.length ≤ k.locals.size := by omega
  have small : k.locals.size ≤ 65536 := by omega
  have code_eq : code m policy = unpackFrom 1 0 0 m.params ++ (receiver m policy ++
      (reload 0 m.params.length ++ ([.callMethod m] ++ (result m ++ [.ret])))) := by
    simp [code, unpack_eq_unpackFrom]
  have array : #[Argument.value this, .array args][(1 : UInt16).toNat]? = some (.array args) := rfl
  have unpacked := exec_unpackFrom p true array 0 0 m.params k fits small
  rw [code_eq, exec_append, unpacked, answer]
  simp only [bind_assoc, pure_bind]
  refine ((length_convertFrom p.registry args 0 m.params).mapError _).bind_congr
    fun slots count => ?_
  rw [exec_enter p m policy this args count k fits small, bind_assoc]
  refine bind_congr fun result => ?_
  exact exec_result_ret p m returns _ result _

section

variable {r : Registry} (policy : Policy) {routine : Routine}
  (made : routine.body = body r m policy)

include made

theorem checkArguments_eq_ok (this : Value) (args : Array Value) :
    routine.checkArguments #[.value this, .array args] = .ok () :=
  Routine.checkArguments_eq_ok made rfl rfl

theorem runChecked_eq_answer (few : m.params.length < 65535) (this : Value) (args : Array Value) :
    routine.runChecked p #[.value this, .array args] =
      answer p m policy this args >>= fun v => pure (some v) := by
  have returns : routine.signature.returnsValue = true := congrArg (·.signature.returnsValue) made
  have size : ((body r m policy).locals.map p.registry.initial).size = m.params.length := by
    simp [body]
  have runs := exec_code p m policy returns this args (k := ⟨[], _, none⟩) size few
  exact Routine.runChecked_eq made runs

theorem invoke_eq_answer (few : m.params.length < 65535) (this : Value) (args : Array Value) :
    invoke p ⟨m, routine⟩ this args =
      (answer p m policy this args).mapError ExecError.toInvokeError := by
  rw [invoke, Routine.run_of_ok (checkArguments_eq_ok m policy made this args),
    runChecked_eq_answer p m policy made few, Run.mapError_bind, bind_assoc]
  exact bind_pure _

end

end MethodInvoker

section Fields

variable (p : Program) (f : Field) (policy : Policy)

theorem Field.exec_loadReceiver (returnsValue : Bool) {args : Array Argument} {target : Value}
    (found : args[(0 : UInt16).toNat]? = some (.value target)) (k : Machine) :
    exec p returnsValue args (f.loadReceiver policy) k =
      ExecM.run (.ofExcept (f.pass p.registry policy target)) >>= fun v =>
        pure (k.push (.ref v)) := by
  have loaded := step_loadArgument_value p returnsValue args k found
  unfold Field.loadReceiver Field.pass
  by_cases static : f.isStatic
  · rw [if_pos static, if_pos static, exec_singleton, loaded]
    rfl
  · rw [if_neg static, if_neg static, exec, loaded, pure_bind, exec_castReceiver]

theorem FieldReader.exec_code {routine : Routine} (returns : routine.signature.returnsValue = true)
    (target : Value) {k : Machine} (size : k.locals.size = 1) :
    exec p true #[.value target] (FieldReader.code f policy) k >>= routine.resultOf =
      FieldReader.answer p f policy target >>= fun v => pure (some v) := by
  have found : #[Argument.value target][(0 : UInt16).toNat]? = some (.value target) := rfl
  have bound : 0 < k.locals.size := by omega
  have code_eq : FieldReader.code f policy = f.loadReceiver policy ++
      ([.ldfld f] ++ ([.storeLocal 0, .loadLocal 0] ++ (Instr.boxValue f.type ++ [.ret]))) := by
    simp [FieldReader.code]
  rw [code_eq, exec_append, f.exec_loadReceiver p policy true found, FieldReader.answer]
  simp only [bind_assoc, pure_bind]
  refine bind_congr fun receiver => ?_
  rw [exec_append, exec_singleton, step_ldfld]
  simp only [bind_assoc, pure_bind]
  refine bind_congr fun s => ?_
  rw [exec_append, exec_stage p _ true s bound, pure_bind]
  exact exec_boxValue_ret p _ returns f.type s _

section

variable {r : Registry} {routine : Routine} (made : routine.body = FieldReader.body r f policy)

include made

theorem FieldReader.checkArguments_eq_ok (target : Value) :
    routine.checkArguments #[.value target] = .ok () :=
  Routine.checkArguments_eq_ok made rfl rfl

theorem FieldReader.runChecked_eq_answer (target : Value) :
    routine.runChecked p #[.value target] =
      FieldReader.answer p f policy target >>= fun v => pure (some v) := by
  have returns : routine.signature.returnsValue = true := congrArg (·.signature.returnsValue) made
  have size : ((FieldReader.body r f policy).locals.map p.registry.initial).size = 1 := by
    simp [FieldReader.body]
  have runs := FieldReader.exec_code p f policy returns target (k := ⟨[], _, none⟩) size
  exact Routine.runChecked_eq made runs

theorem FieldReader.get_eq_answer (target : Value) :
    FieldReader.get p ⟨f, routine⟩ target =
      (FieldReader.answer p f policy target).mapError ExecError.toInvokeError := by
  rw [FieldReader.get, Routine.run_of_ok (FieldReader.checkArguments_eq_ok f policy made target),
    FieldReader.runChecked_eq_answer p f policy made, Run.mapError_bind, bind_assoc]
  exact bind_pure _

end

theorem FieldWriter.exec_code {routine : Routine} (returns : routine.signature.returnsValue = false)
    (target value : Value) {k : Machine} (fresh : k.result = none) :
    exec p false #[.value target, .value value] (FieldWriter.code f policy) k >>=
        routine.resultOf =
      ExecM.run (FieldWriter.answer p f policy target value) >>= fun _ => pure none := by
  have receiver : #[Argument.value target, .value value][(0 : UInt16).toNat]? =
      some (.value target) := rfl
  have found : #[Argument.value target, .value value][(1 : UInt16).toNat]? =
      some (.value value) := rfl
  have finished : routine.resultOf k = pure none := by
    simp [Routine.resultOf, fresh, returns]
  have ended : step p false #[.value target, .value value] .ret k = pure k := by
    simp [step, stepPlain]
  rw [FieldWriter.code, exec_append, f.exec_loadReceiver p policy false receiver,
    FieldWriter.answer]
  simp only [bind_assoc, pure_bind, ExecM.run_bind]
  refine bind_congr fun v => ?_
  simp only [exec, step_loadArgument_value p false _ _ found, step_coerce, step_stfld, pure_bind,
    bind_assoc, ended, finished]

section

variable {r : Registry} {routine : Routine} (made : routine.body = FieldWriter.body r f policy)

include made

theorem FieldWriter.checkArguments_eq_ok (target value : Value) :
    routine.checkArguments #[.value target, .value value] = .ok () :=
  Routine.checkArguments_eq_ok made rfl rfl

theorem FieldWriter.runChecked_eq_answer (target value : Value) :
    routine.runChecked p #[.value target, .value value] =
      ExecM.run (FieldWriter.answer p f policy target value) >>= fun _ => pure none := by
  have returns : routine.signature.returnsValue = false := congrArg (·.signature.returnsValue) made
  have runs := FieldWriter.exec_code p f policy returns target value
    (k := ⟨[], (FieldWriter.body r f policy).locals.map p.registry.initial, none⟩) rfl
  exact Routine.runChecked_eq made runs

theorem FieldWriter.set_eq_answer (target value : Value) :
    FieldWriter.set p ⟨f, routine⟩ target value = FieldWriter.answer p f policy target value := by
  rw [FieldWriter.set,
    Routine.run_of_ok (FieldWriter.checkArguments_eq_ok f policy made target value),
    FieldWriter.runChecked_eq_answer p f policy made, Run.mapError_bind, ExecM.mapError_run]
  exact Run.discard_bind_pure _ none

end

end Fields

end MemberAccess
