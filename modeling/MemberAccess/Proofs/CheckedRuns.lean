import MemberAccess.Proofs.CallAgreement
import MemberAccess.Proofs.Depth

/-!
Running code that has passed the check. The depth that the check has followed is the depth of the
stack before every instruction, no instruction misses an operand, and the result is there exactly
if the signature promises one. What kind of operand lies on the stack the check does not follow.
-/

namespace MemberAccess.Code

/-- Faults that the check rules out: all but those about the kind of an operand. -/
def Fault.isRuledOut : Fault → Bool
  | stackUnderflow | argumentMissing _ | localMissing _ | noStep _ | wrongShape _ => true
  | notReference _ | notReceiver .. => false

/-- What may end the run of checked code: any failure of an instruction, and few faults. -/
def ExecError.Admitted : ExecError → Prop
  | fault f => f.isRuledOut = false
  | failure _ => True

namespace ExecM

theorem run_ends (x : RunM α) : (run x).Ends (fun _ => True) ExecError.Admitted := by
  intro h
  simp only [run, Run.mapError]
  cases x h with
  | mk outcome after => cases outcome <;> exact True.intro

end ExecM

theorem Operand.toSlot_ends (o : Operand) :
    o.toSlot.Ends (fun _ => True) ExecError.Admitted := by
  cases o with
  | slot s => exact .pure True.intro
  | items a => exact fun _ => True.intro

namespace Machine

/-- The measures of a machine that the check follows. -/
structure Shaped (m : Machine) (depth declared : Nat) (returned : Bool) : Prop where
  depth : m.stack.length = depth
  locals : m.locals.size = declared
  result : m.result.isSome = returned

variable {m : Machine} {depth declared : Nat} {returned : Bool}

theorem Shaped.push (shaped : m.Shaped depth declared returned) (s : Slot) :
    (m.push s).Shaped (depth + 1) declared returned :=
  ⟨congrArg (· + 1) shaped.depth, shaped.locals, shaped.result⟩

theorem Shaped.pushResult (shaped : m.Shaped depth declared returned) (returns : Ty) (s : Slot) :
    (m.pushResult returns s).Shaped (depth + if returns.isVoid then 0 else 1) declared
      returned := by
  unfold Machine.pushResult
  split
  · exact shaped
  · exact shaped.push s

theorem pop_ends (shaped : m.Shaped (depth + 1) declared returned) :
    m.pop.Ends (·.2.Shaped depth declared returned) ExecError.Admitted := by
  obtain ⟨stack, locals, result⟩ := m
  cases stack with
  | nil => cases shaped.depth
  | cons o rest => exact .pure ⟨Nat.succ.inj shaped.depth, shaped.locals, shaped.result⟩

theorem popSlot_ends (shaped : m.Shaped (depth + 1) declared returned) :
    m.popSlot.Ends (·.2.Shaped depth declared returned) ExecError.Admitted :=
  (pop_ends shaped).bind fun (o, _) rest => o.toSlot_ends.bind fun _ _ => .pure rest

theorem popRef_ends (r : Registry) (shaped : m.Shaped (depth + 1) declared returned) :
    (m.popRef r).Ends (·.2.Shaped depth declared returned) ExecError.Admitted := by
  refine (popSlot_ends shaped).bind fun (s, _) rest => ?_
  cases s with
  | ref v => exact .pure rest
  | _ => exact .throw rfl

theorem length_of_takeOperands {n : Nat} {stack taken above rest : List Operand}
    (took : takeOperands n stack taken = some (above, rest)) : stack.length = rest.length + n := by
  induction n generalizing stack taken with
  | zero =>
    cases took
    rfl
  | succ n ih =>
    cases stack with
    | nil => cases took
    | cons o stack => exact congrArg (· + 1) (ih took)

theorem popArguments_ends {n : Nat} (shaped : m.Shaped (depth + n) declared returned) :
    (m.popArguments n).Ends (·.2.Shaped depth declared returned) ExecError.Admitted := by
  unfold popArguments
  cases took : takeOperands n m.stack [] with
  | none =>
    have short := takeOperands_eq_none_iff.mp took
    rw [shaped.depth] at short
    exact absurd short (by omega)
  | some split =>
    obtain ⟨above, rest⟩ := split
    have count := length_of_takeOperands took
    rw [shaped.depth] at count
    refine (Run.Ends.mapM above Operand.toSlot_ends).bind fun _ _ => ?_
    exact .pure ⟨(Nat.add_right_cancel count).symm, shaped.locals, shaped.result⟩

end Machine

section Steps

variable (p : Program) {args : Array Argument} {m : Machine} {depth declared : Nat}
  {returned : Bool}

theorem loadArgument_ends {index : Nat} (bound : index < args.size)
    (shaped : m.Shaped depth declared returned) :
    (loadArgument args index m).Ends (·.Shaped (depth + 1) declared returned)
      ExecError.Admitted := by
  unfold loadArgument
  rw [Array.getElem?_eq_getElem bound]
  have pushed (o : Operand) :
      ({ m with stack := o :: m.stack } : Machine).Shaped (depth + 1) declared returned :=
    ⟨congrArg (· + 1) shaped.depth, shaped.locals, shaped.result⟩
  cases args[index] with
  | value v => exact .pure (pushed _)
  | array a => exact .pure (pushed _)

theorem loadLocal_ends {index : Nat} (bound : index < declared)
    (shaped : m.Shaped depth declared returned) :
    (loadLocal index m).Ends (·.Shaped (depth + 1) declared returned) ExecError.Admitted := by
  unfold loadLocal
  rw [Array.getElem?_eq_getElem (shaped.locals.symm ▸ bound)]
  exact .pure (shaped.push _)

theorem storeLocal_ends {index : Nat} (bound : index < declared)
    (shaped : m.Shaped (depth + 1) declared returned) :
    (storeLocal index m).Ends (·.Shaped depth declared returned) ExecError.Admitted := by
  refine (Machine.popSlot_ends shaped).bind fun (s, popped) rest => ?_
  have inRange : index < popped.locals.size := rest.locals.symm ▸ bound
  simp only [if_pos inRange]
  exact .pure ⟨rest.depth, Array.size_setIfInBounds.trans rest.locals, rest.result⟩

theorem ldelemRef_ends (r : Registry) (shaped : m.Shaped (depth + 2) declared returned) :
    (ldelemRef r m).Ends (·.Shaped (depth + 1) declared returned) ExecError.Admitted := by
  refine (Machine.popSlot_ends shaped).bind fun (s, _) index => ?_
  refine (ExecM.run_ends _).bind fun i _ => ?_
  refine (Machine.pop_ends index).bind fun (o, _) rest => ?_
  cases o with
  | items a => exact (ExecM.run_ends _).bind fun v _ => .pure (rest.push _)
  | slot s =>
    exact (ExecM.run_ends _).bind fun a _ => (ExecM.run_ends _).bind fun v _ => .pure (rest.push _)

theorem ldfld_ends (r : Registry) (f : Field) (shaped : m.Shaped (depth + 1) declared returned) :
    (ldfld r f m).Ends (·.Shaped (depth + 1) declared returned) ExecError.Admitted := by
  refine (Machine.popSlot_ends shaped).bind fun (s, popped) rest => ?_
  have loaded (x : RunM Slot) :
      (ExecM.run x >>= fun s => pure (popped.push s)).Ends (·.Shaped (depth + 1) declared returned)
        ExecError.Admitted :=
    (ExecM.run_ends x).bind fun s _ => .pure (rest.push s)
  by_cases static : f.isStatic
  · simp only [if_pos static]
    exact loaded _
  · simp only [if_neg static]
    cases s with
    | struct t fields => exact loaded _
    | ref v => exact loaded _
    | _ => exact .throw rfl

theorem stfld_ends (r : Registry) (f : Field) (shaped : m.Shaped (depth + 2) declared returned) :
    (stfld r f m).Ends (·.Shaped depth declared returned) ExecError.Admitted := by
  refine (Machine.popSlot_ends shaped).bind fun (value, _) receiver => ?_
  refine (Machine.popSlot_ends receiver).bind fun (target, popped) rest => ?_
  have stored (x : RunM Unit) :
      (ExecM.run x >>= fun _ => pure popped).Ends (·.Shaped depth declared returned)
        ExecError.Admitted :=
    (ExecM.run_ends x).bind fun _ _ => .pure rest
  by_cases static : f.isStatic
  · simp only [if_pos static]
    exact stored _
  · simp only [if_neg static]
    cases target with
    | ref v => exact stored _
    | _ => exact .throw rfl

theorem call_ends (callee : Method) (isVirtual : Bool)
    (shaped : m.Shaped (depth + (callee.params.length + if callee.isStatic then 0 else 1)) declared
      returned) :
    (call p callee isVirtual m).Ends
      (·.Shaped (depth + if callee.returns.isVoid then 0 else 1) declared returned)
      ExecError.Admitted := by
  have below : m.Shaped (depth + (if callee.isStatic then 0 else 1) + callee.params.length) declared
      returned := by
    rwa [Nat.add_assoc, Nat.add_comm (ite _ _ _)]
  refine (Machine.popArguments_ends below).bind fun (slots, popped) receiver => ?_
  by_cases static : callee.isStatic
  · simp only [if_pos static] at receiver ⊢
    exact (ExecM.run_ends _).bind fun s _ => .pure (receiver.pushResult _ s)
  · simp only [if_neg static] at receiver ⊢
    refine (Machine.popRef_ends p.registry receiver).bind fun (this, popped) rest => ?_
    cases isVirtual with
    | true => exact (ExecM.run_ends _).bind fun s _ => .pure (rest.pushResult _ s)
    | false => exact (ExecM.run_ends _).bind fun s _ => .pure (rest.pushResult _ s)

/-- An instruction changes the depth of the stack as the check says it does. -/
theorem step_ends (returnsValue : Bool) {i : Instr} (notRet : i ≠ .ret)
    (named : i.inScope args.size declared = true)
    (shaped : m.Shaped (depth + i.pops) declared returned) :
    (step p returnsValue args i m).Ends (·.Shaped (depth + i.pushes) declared returned)
      ExecError.Admitted := by
  cases i with
  | ldarg i => exact loadArgument_ends (of_decide_eq_true named) shaped
  | ldloc i => exact loadLocal_ends (of_decide_eq_true named) shaped
  | stloc i => exact storeLocal_ends (of_decide_eq_true named) shaped
  | ldcI4 n => exact .pure (shaped.push _)
  | ldnull => exact .pure (shaped.push _)
  | ldelemRef => exact ldelemRef_ends p.registry shaped
  | ldfld f => exact ldfld_ends p.registry f shaped
  | stfld f => exact stfld_ends p.registry f shaped
  | newobj c =>
    refine (Machine.popArguments_ends shaped).bind fun (slots, _) rest => ?_
    exact (ExecM.run_ends _).bind fun s _ => .pure (rest.push s)
  | call callee => exact call_ends p callee false shaped
  | callvirt callee => exact call_ends p callee true shaped
  | box t =>
    refine (Machine.popSlot_ends shaped).bind fun (s, _) rest => ?_
    exact (ExecM.run_ends _).bind fun v _ => .pure (rest.push _)
  | unboxAny t =>
    refine (Machine.popRef_ends p.registry shaped).bind fun (v, _) rest => ?_
    exact (ExecM.run_ends _).bind fun s _ => .pure (rest.push s)
  | castclass t =>
    refine (Machine.popRef_ends p.registry shaped).bind fun (v, _) rest => ?_
    exact (ExecM.run_ends _).bind fun v _ => .pure (rest.push _)
  | pop => exact (Machine.pop_ends shaped).bind fun _ rest => .pure rest
  | ret => exact absurd rfl notRet

/-- What `ret` takes is what the signature promises. -/
theorem step_ret_ends (returnsValue : Bool)
    (shaped : m.Shaped (if returnsValue then 1 else 0) declared false) :
    (step p returnsValue args .ret m).Ends (·.Shaped 0 declared returnsValue)
      ExecError.Admitted := by
  cases returnsValue with
  | false => exact .pure shaped
  | true =>
    have one : m.Shaped (0 + 1) declared false := shaped
    refine (Machine.popRef_ends p.registry one).bind fun (v, _) rest => ?_
    exact .pure ⟨rest.depth, rest.locals, rfl⟩

/-- A run keeps step with a walk. -/
theorem exec_ends (returnsValue : Bool) {code : List Instr}
    (walked : Admissible args.size declared code depth)
    (shaped : m.Shaped depth declared returned) :
    (exec p returnsValue args code m).Ends (·.Shaped (depthAfter code depth) declared returned)
      ExecError.Admitted := by
  induction code generalizing m depth with
  | nil => exact .pure shaped
  | cons i rest ih =>
    obtain ⟨notRet, named, enough, later⟩ := walked
    obtain ⟨below, rfl⟩ := Nat.exists_eq_add_of_le' enough
    have after : i.depthAfter (below + i.pops) = below + i.pushes := by
      rw [Instr.depthAfter, Nat.add_sub_cancel]
    refine (step_ends p returnsValue notRet named shaped).bind fun m' stepped => ?_
    rw [after] at later
    rw [depthAfter, after]
    exact ih later stepped

end Steps

namespace Body

/-- The depth at which the check arrives at instruction `k`. -/
def depthAt (b : Body) (k : Nat) : Nat :=
  depthAfter (b.code.toList.take k) 0

/-- The number of entries that the signature wants in front of `ret`. -/
def promised (b : Body) : Nat :=
  if b.signature.returnsValue then 1 else 0

theorem walk_of_check {b : Body} {n : Nat} (passed : b.check = .ok n) :
    ∃ front, b.code.toList = front ++ [.ret] ∧
      Walk b.signature.arity b.locals.size front 0 0 b.promised n :=
  walk_of_checkFrom passed

/-- What stands in front of an instruction of accepted code is admissible, and the check goes on
from there with the depth that it has followed. -/
theorem check_at {b : Body} {n k : Nat} (passed : b.check = .ok n) (inside : k < b.code.size) :
    Admissible b.signature.arity b.locals.size (b.code.toList.take k) 0 ∧
      b.check = checkFrom b.signature.arity b.locals.size b.promised (b.code.toList.drop k)
        (codeSize (b.code.toList.take k)) (b.depthAt k)
        (peakAfter (b.code.toList.take k) 0 0) ∧
      b.depthAt k ≤ n := by
  obtain ⟨front, code, walked⟩ := walk_of_check passed
  have count := congrArg List.length code
  rw [Array.length_toList, List.length_append, List.length_singleton] at count
  have taken : b.code.toList.take k = front.take k := by
    rw [code, List.take_append_of_le_length (by omega)]
  have split := walked.admissible
  rw [← List.take_append_drop k front] at split
  have before := (admissible_append.mp split).1
  refine ⟨taken ▸ before, ?_, ?_⟩
  · have parts := checkFrom_append b.promised (b.code.toList.drop k) 0 0 (taken ▸ before)
    rw [List.take_append_drop, Nat.zero_add] at parts
    exact parts
  · have peaks := peakAfter_append (front.take k) (front.drop k) 0 0
    rw [List.take_append_drop, walked.peak_eq] at peaks
    rw [depthAt, taken, peaks]
    exact Nat.le_trans (depthAfter_le_peakAfter _ (Nat.le_refl 0)) (le_peakAfter _ _ _)

end Body

/-- Makes an interval of the two numbers in an array. -/
def intervalBody : Body where
  name := "interval"
  signature := ⟨[.objectArray], true⟩
  locals := #[.int32]
  code := #[.loadArgument 0, .loadConstant 0, .ldelemRef, .unboxAny .int32, .storeLocal 0,
    .loadLocal 0, .loadArgument 0, .loadConstant 1, .ldelemRef, .unboxAny .int32,
    .newobj Interval.make, .box Interval.make.declaring, .ret]

theorem check_intervalBody : intervalBody.check = .ok 3 := rfl

def intervalRoutine : Routine := ⟨intervalBody, 3, check_intervalBody⟩

namespace Routine

theorem find?_misfit_eq_none_iff {kinds : List ArgumentKind} {args : List Argument}
    (count : args.length = kinds.length) (i : Nat) :
    (((kinds.zip args).zipIdx i).find? fun ((k, a), _) => a.kind != k) = none ↔
      args.map Argument.kind = kinds := by
  induction kinds generalizing args i with
  | nil => simp [List.length_eq_zero_iff.mp count]
  | cons k kinds ih =>
    cases args with
    | nil => cases count
    | cons a args =>
      have later := ih (Nat.succ.inj count) (i + 1)
      by_cases fits : a.kind = k <;> simp_all

/-- Arguments are accepted exactly if their kinds are those of the signature, one by one. -/
theorem checkArguments_eq_ok_iff (f : Routine) (args : Array Argument) :
    f.checkArguments args = .ok () ↔ args.toList.map Argument.kind = f.signature.params := by
  unfold checkArguments
  by_cases count : args.size = f.signature.arity
  · have length : args.toList.length = f.signature.params.length := count
    rw [if_neg (by simp [count]), ← find?_misfit_eq_none_iff length 0, misfit?]
    cases List.find? _ _ <;> simp
  · rw [if_pos (by simp [count])]
    refine ⟨fun accepted => (by cases accepted), fun same => absurd ?_ count⟩
    have lengths := congrArg List.length same
    rwa [List.length_map] at lengths

theorem run_of_error {p : Program} {f : Routine} {args : Array Argument} {e : InvokeError}
    (refused : f.checkArguments args = .error e) : f.run p args = throw e := by
  rw [run, refused]
  rfl

theorem start_shaped (r : Registry) (f : Routine) :
    (f.start r).Shaped 0 f.body.locals.size false :=
  ⟨rfl, Array.size_map, rfl⟩

section

variable {p : Program} {f : Routine} {args : Array Argument}
  (count : args.size = f.signature.arity)

include count

theorem exec_take_ends {k : Nat} (inside : k < f.body.code.size) :
    (exec p f.signature.returnsValue args (f.body.code.toList.take k)
        (f.start p.registry)).Ends
      (·.Shaped (f.body.depthAt k) f.body.locals.size false) ExecError.Admitted := by
  have admissible := (Body.check_at f.checked inside).1
  refine exec_ends p _ ?_ (f.start_shaped p.registry)
  rw [count]
  exact admissible

theorem step_at_ends {k : Nat} {i : Instr} (at_k : f.body.code[k]? = some i) {m : Machine}
    (shaped : m.Shaped (f.body.depthAt k) f.body.locals.size false) :
    (step p f.signature.returnsValue args i m).Ends (fun _ => True) ExecError.Admitted := by
  obtain ⟨inside, rfl⟩ := Array.getElem?_eq_some_iff.mp at_k
  obtain ⟨_, resumed, _⟩ := Body.check_at f.checked inside
  obtain ⟨front, code, walked⟩ := Body.walk_of_checkFrom (resumed.symm.trans f.checked)
  have head : f.body.code.toList.drop k =
      f.body.code[k] :: f.body.code.toList.drop (k + 1) :=
    List.drop_eq_getElem_cons inside
  rw [head] at code
  -- Either the walk from here is over and this is the closing `ret`, or it goes on with it.
  cases front with
  | nil =>
    obtain ⟨last, _⟩ := List.cons.inj code
    have balanced : f.body.depthAt k = f.body.promised := walked.depth_eq
    rw [balanced] at shaped
    rw [last]
    exact (step_ret_ends p f.signature.returnsValue shaped).mono fun _ _ => True.intro
  | cons i front =>
    obtain ⟨same, _⟩ := List.cons.inj code
    obtain ⟨notRet, named, enough, _⟩ := walked.admissible
    obtain ⟨below, depth⟩ := Nat.exists_eq_add_of_le' enough
    rw [depth] at shaped
    rw [same]
    refine (step_ends p _ notRet ?_ shaped).mono fun _ _ => True.intro
    rw [count]
    exact named

theorem exec_code_ends :
    (exec p f.signature.returnsValue args f.body.code.toList (f.start p.registry)).Ends
      (·.result.isSome = f.signature.returnsValue) ExecError.Admitted := by
  obtain ⟨front, code, walked⟩ := Body.walk_of_check f.checked
  have admissible := walked.admissible
  rw [show f.body.signature.arity = args.size from count.symm] at admissible
  rw [code, exec_append]
  refine (exec_ends p _ admissible (f.start_shaped p.registry)).bind fun m shaped => ?_
  rw [walked.depth_eq] at shaped
  rw [exec_singleton]
  exact (step_ret_ends p _ shaped).mono fun _ returned => returned.result

end

/-- A routine turns its arguments away before it runs anything, exactly if their kinds are not those
of the signature. Otherwise its run follows the check: before every instruction the stack is as deep
as the check has it there and no deeper than the check has found it to get, no instruction finds an
operand missing, and at the end the result is there exactly if the signature promises one. -/
theorem run_follows_check {b : Body} {f : Routine} (accepted : b.toRoutine = .ok f) (p : Program)
    (args : Array Argument) :
    (f.checkArguments args = .ok () ↔ args.toList.map Argument.kind = b.signature.params) ∧
      (∀ e, f.checkArguments args = .error e → f.run p args = throw e) ∧
      (args.toList.map Argument.kind = b.signature.params →
        f.run p args = (f.runChecked p args).mapError ExecError.toInvokeError ∧
        (∀ k i, b.code[k]? = some i → ∀ before m h,
          exec p b.signature.returnsValue args (b.code.toList.take k) (f.start p.registry) before =
              (.ok m, h) →
            b.check = Body.checkFrom b.signature.arity b.locals.size b.promised
              (b.code.toList.drop k) (codeSize (b.code.toList.take k)) m.stack.length
              (peakAfter (b.code.toList.take k) 0 0) ∧
            m.stack.length = b.depthAt k ∧ m.stack.length ≤ f.maxStack ∧
            ∀ x after, step p b.signature.returnsValue args i m h = (.error (.fault x), after) →
              x.isRuledOut = false) ∧
        ∀ before m h,
          exec p b.signature.returnsValue args b.code.toList (f.start p.registry) before =
              (.ok m, h) →
            m.result.isSome = b.signature.returnsValue ∧
            f.runChecked p args before = (.ok m.result, h)) := by
  obtain rfl := Body.body_of_toRoutine accepted
  refine ⟨f.checkArguments_eq_ok_iff args, fun e => run_of_error, fun kinds => ?_⟩
  have fit : f.checkArguments args = .ok () := (f.checkArguments_eq_ok_iff args).mpr kinds
  have count : args.size = f.signature.arity := by
    have lengths := congrArg List.length kinds
    rwa [List.length_map] at lengths
  refine ⟨run_of_ok fit, fun k i at_k before m h reached => ?_, fun before m h ran => ?_⟩
  · obtain ⟨inside, _⟩ := Array.getElem?_eq_some_iff.mp at_k
    obtain ⟨_, resumed, bounded⟩ := Body.check_at f.checked inside
    have shaped := (exec_take_ends count inside).of_ok reached
    have depth : m.stack.length = f.body.depthAt k := shaped.depth
    rw [depth]
    exact ⟨resumed, rfl, bounded, fun x after => (step_at_ends count at_k shaped).of_error⟩
  · have result := (exec_code_ends count).of_ok ran
    refine ⟨result, ?_⟩
    have returned : f.resultOf m = pure m.result := if_pos (beq_iff_eq.mpr result)
    exact Run.bind_eq_ok.mpr ⟨m, h, ran, congrFun returned h⟩

theorem start_intervalRoutine :
    intervalRoutine.start Interval.program.registry = { locals := #[.int32 0] } := by
  simp [start, intervalRoutine, intervalBody, Registry.initial, Registry.initialWithin,
    Primitive.initial]

/-- Both numbers lie on the stack when the interval is made, after a third entry has been there. -/
theorem run_follows_check_interval :
    intervalBody.toRoutine = .ok intervalRoutine ∧
      [Argument.array #[.int32 3, .int32 4]].map Argument.kind = intervalBody.signature.params ∧
      intervalBody.code[10]? = some (.newobj Interval.make) ∧
      exec Interval.program true #[.array #[.int32 3, .int32 4]]
          (intervalBody.code.toList.take 10) (intervalRoutine.start Interval.program.registry) {} =
        (.ok ⟨[.slot (.int32 4), .slot (.int32 3)], #[.int32 3], none⟩, {}) ∧
      2 = intervalBody.depthAt 10 ∧ 2 ≤ intervalRoutine.maxStack ∧
      intervalRoutine.run Interval.program #[.array #[.int32 3, .int32 4]] {} =
        (.ok (some (.object ⟨.structType 1, 1⟩)),
          { objects := #[[.int32 3, .int32 4], [.int32 3, .int32 4]] }) := by
  have accepted : intervalBody.toRoutine = .ok intervalRoutine :=
    Body.toRoutine_eq_ok check_intervalBody
  have kinds : [Argument.array #[.int32 3, .int32 4]].map Argument.kind =
      intervalBody.signature.params := rfl
  have at_10 : intervalBody.code[10]? = some (.newobj Interval.make) := rfl
  have reached : exec Interval.program true #[.array #[.int32 3, .int32 4]]
      (intervalBody.code.toList.take 10) (intervalRoutine.start Interval.program.registry) {} =
      (.ok ⟨[.slot (.int32 4), .slot (.int32 3)], #[.int32 3], none⟩, {}) := by
    rw [start_intervalRoutine]
    rfl
  have ended : exec Interval.program true #[.array #[.int32 3, .int32 4]]
      intervalBody.code.toList (intervalRoutine.start Interval.program.registry) {} =
      (.ok ⟨[], #[.int32 3], some (.object ⟨.structType 1, 1⟩)⟩,
        { objects := #[[.int32 3, .int32 4], [.int32 3, .int32 4]] }) := by
    have code : intervalBody.code.toList = intervalBody.code.toList.take 10 ++
        [.newobj Interval.make, .box Interval.make.declaring, .ret] := rfl
    rw [code, exec_append]
    exact Run.bind_eq_ok.mpr ⟨_, _, reached, rfl⟩
  obtain ⟨_, _, runs⟩ :=
    run_follows_check accepted Interval.program #[.array #[.int32 3, .int32 4]]
  obtain ⟨ran, steps, ends⟩ := runs kinds
  obtain ⟨_, depth, bounded, _⟩ := steps 10 _ at_10 _ _ _ reached
  obtain ⟨_, returned⟩ := ends _ _ _ ended
  refine ⟨accepted, kinds, at_10, reached, depth, bounded, ?_⟩
  rw [ran, Run.mapError, returned]

end Routine

end MemberAccess.Code
