import MemberAccess.Code.Assembly
import MemberAccess.Code.Machine
import MemberAccess.Proofs.Runs

/-!
What each instruction does on a stack that holds what it takes. Longer code is run by rewriting with
these equations, and no later proof opens the machine.
-/

namespace MemberAccess

/-- What a conversion instruction makes of a value: value types are unboxed, all others cast. -/
def Value.coerce (r : Registry) (v : Value) (t : Ty) : RunM Slot :=
  if t.isValueType then v.unbox r t else .ofExcept ((v.cast r t).map .ref)

/-- Only `Void` tells the instruction from unboxing: its cast lets null pass. -/
theorem Value.coerce_eq_unbox (r : Registry) (v : Value) {t : Ty} (typed : t ≠ .void) :
    v.coerce r t = v.unbox r t := by
  cases t with
  | void => exact absurd rfl typed
  | primitive p => rfl
  | structType id => rfl
  | string => cases v <;> rfl
  | array => cases v <;> rfl
  | object => cases v <;> rfl
  | classType id => cases v <;> rfl

namespace Code

namespace ExecM

@[simp] theorem run_pure (a : α) : run (pure a : RunM α) = pure a := rfl

theorem run_bind (x : RunM α) (f : α → RunM β) :
    run (x >>= f) = run x >>= fun a => run (f a) :=
  Run.mapError_bind ExecError.failure x f

/-- Failures of members leave a routine as they are. -/
@[simp] theorem mapError_run (x : RunM α) : (run x).mapError ExecError.toInvokeError = x := by
  funext h
  simp only [run, Run.mapError]
  cases x h with
  | mk outcome after => cases outcome <;> rfl

end ExecM

namespace Machine

/-- Pushes an array argument, which is not on the heap. -/
def pushItems (m : Machine) (a : Array Value) : Machine :=
  { m with stack := .items a :: m.stack }

/-- Pushes slots one after another. -/
def pushAll (m : Machine) (slots : List Slot) : Machine :=
  slots.foldl push m

def setLocal (m : Machine) (i : Nat) (s : Slot) : Machine :=
  { m with locals := m.locals.setIfInBounds i s }

def finish (m : Machine) (v : Value) : Machine :=
  { m with result := some v }

@[simp] theorem pop_pushItems (m : Machine) (a : Array Value) :
    (m.pushItems a).pop = pure (.items a, m) := rfl

@[simp] theorem popSlot_push (m : Machine) (s : Slot) : (m.push s).popSlot = pure (s, m) := rfl

@[simp] theorem popRef_push (r : Registry) (m : Machine) (v : Value) :
    (m.push (.ref v)).popRef r = pure (v, m) := rfl

theorem pushAll_concat (m : Machine) (slots : List Slot) (s : Slot) :
    m.pushAll (slots ++ [s]) = (m.pushAll slots).push s := by
  rw [pushAll, List.foldl_append]
  rfl

theorem pushAll_eq (m : Machine) (slots : List Slot) :
    m.pushAll slots = { m with stack := slots.reverse.map Operand.slot ++ m.stack } := by
  induction slots generalizing m with
  | nil => rfl
  | cons s rest ih =>
    have pushed := ih (m.push s)
    simpa [pushAll, push] using pushed

theorem mapM_toSlot (slots : List Slot) :
    (slots.map Operand.slot).mapM Operand.toSlot = (pure slots : ExecM (List Slot)) := by
  induction slots with
  | nil => rfl
  | cons s rest ih => simp [Operand.toSlot, ih]

/-- A call finds its arguments in the order in which they were pushed. -/
theorem popArguments_pushAll (m : Machine) (slots : List Slot) :
    (m.pushAll slots).popArguments slots.length = pure (slots.toArray, m) := by
  have taken := takeOperands_append (slots.reverse.map Operand.slot) m.stack []
  simp only [List.length_map, List.length_reverse, List.append_nil, ← List.map_reverse,
    List.reverse_reverse] at taken
  simp only [popArguments, pushAll_eq, taken, mapM_toSlot, pure_bind]

@[simp] theorem size_setLocal (m : Machine) (i : Nat) (s : Slot) :
    (m.setLocal i s).locals.size = m.locals.size :=
  Array.size_setIfInBounds

theorem locals_setLocal (m : Machine) {i : Nat} (s : Slot) (bound : i < m.locals.size) :
    (m.setLocal i s).locals[i]? = some s :=
  Array.getElem?_setIfInBounds_self_of_lt bound

theorem locals_setLocal_of_ne (m : Machine) {i j : Nat} (s : Slot) (ne : i ≠ j) :
    (m.setLocal i s).locals[j]? = m.locals[j]? :=
  Array.getElem?_setIfInBounds_ne ne

end Machine

-- The dispatch is opened here only; what follows rewrites with the equations below.
attribute [local simp] step stepPlain

section

variable (p : Program) (returnsValue : Bool) (args : Array Argument) (m : Machine)

theorem exec_singleton (i : Instr) :
    exec p returnsValue args [i] m = step p returnsValue args i m := by
  simp [exec]

theorem step_loadArgument_value {i : UInt16} {v : Value}
    (found : args[i.toNat]? = some (.value v)) :
    step p returnsValue args (.loadArgument i) m = pure (m.push (.ref v)) := by
  simp [Instr.loadArgument, loadArgument, found]

theorem step_loadArgument_array {i : UInt16} {a : Array Value}
    (found : args[i.toNat]? = some (.array a)) :
    step p returnsValue args (.loadArgument i) m = pure (m.pushItems a) := by
  simp [Instr.loadArgument, loadArgument, found, Machine.pushItems]

theorem step_loadConstant (n : Int32) :
    step p returnsValue args (.loadConstant n) m = pure (m.push (.int32 n)) := by
  simp [Instr.loadConstant]

theorem step_loadLocal {i : UInt16} {s : Slot} (found : m.locals[i.toNat]? = some s) :
    step p returnsValue args (.loadLocal i) m = pure (m.push s) := by
  simp [Instr.loadLocal, Instr.pops, loadLocal, found]

theorem step_storeLocal {i : UInt16} (s : Slot) (bound : i.toNat < m.locals.size) :
    step p returnsValue args (.storeLocal i) (m.push s) = pure (m.setLocal i.toNat s) := by
  simp [Instr.storeLocal, Instr.pops, storeLocal, bound, Machine.setLocal]

theorem step_ldelemRef (a : Array Value) (n : Int32) :
    step p returnsValue args .ldelemRef ((m.pushItems a).push (.int32 n)) =
      ExecM.run (.ofExcept (elementAt a n)) >>= fun v => pure (m.push (.ref v)) := by
  simp [ldelemRef, Slot.asInt32]

theorem step_castclass (t : Ty) (v : Value) :
    step p returnsValue args (.castclass t) (m.push (.ref v)) =
      ExecM.run (.ofExcept (v.cast p.registry t)) >>= fun v => pure (m.push (.ref v)) := by
  simp

theorem step_unboxAny (t : Ty) (v : Value) :
    step p returnsValue args (.unboxAny t) (m.push (.ref v)) =
      ExecM.run (v.unbox p.registry t) >>= fun s => pure (m.push s) := by
  simp

theorem step_coerce (t : Ty) (v : Value) :
    step p returnsValue args (.coerce t) (m.push (.ref v)) =
      ExecM.run (v.coerce p.registry t) >>= fun s => pure (m.push s) := by
  by_cases valueType : t.isValueType
  · rw [Instr.coerce, if_pos valueType, step_unboxAny, Value.coerce, if_pos valueType]
  · rw [Instr.coerce, if_neg valueType, step_castclass, Value.coerce, if_neg valueType]
    cases v.cast p.registry t <;> rfl

theorem step_box (t : Ty) (s : Slot) :
    step p returnsValue args (.box t) (m.push s) =
      ExecM.run (s.box p.registry t) >>= fun v => pure (m.push (.ref v)) := by
  simp

theorem step_ldfld (f : Field) (v : Value) :
    step p returnsValue args (.ldfld f) (m.push (.ref v)) =
      ExecM.run (f.load p.registry v) >>= fun s => pure (m.push s) := by
  cases storage : f.storage <;> simp [ldfld, Field.isStatic, Field.load, storage]

theorem step_stfld (f : Field) (v : Value) (s : Slot) :
    step p returnsValue args (.stfld f) ((m.push (.ref v)).push s) =
      ExecM.run (f.store p.registry v s) >>= fun _ => pure m := by
  cases storage : f.storage <;> simp [stfld, Field.isStatic, Field.store, storage]

theorem step_newobj (c : Constructor) (slots : List Slot)
    (count : slots.length = c.params.length) :
    step p returnsValue args (.newobj c) (m.pushAll slots) =
      ExecM.run (c.construct p slots.toArray) >>= fun created => pure (m.push created) := by
  simp [← count, Machine.popArguments_pushAll]

theorem step_call {callee : Method} (static : callee.isStatic = true) (slots : List Slot)
    (count : slots.length = callee.params.length) :
    step p returnsValue args (.call callee) (m.pushAll slots) =
      ExecM.run (callee.call p .null slots.toArray) >>= fun result =>
        pure (m.pushResult callee.returns result) := by
  simp [call, ← count, Machine.popArguments_pushAll, static]

theorem step_callvirt {callee : Method} (static : callee.isStatic = false) (this : Value)
    (slots : List Slot) (count : slots.length = callee.params.length) :
    step p returnsValue args (.callvirt callee) ((m.push (.ref this)).pushAll slots) =
      ExecM.run (callee.callVirtual p this slots.toArray) >>= fun result =>
        pure (m.pushResult callee.returns result) := by
  simp [call, ← count, Machine.popArguments_pushAll, static]

theorem step_ret (v : Value) :
    step p true args .ret (m.push (.ref v)) = pure (m.finish v) := by
  simp [Machine.finish]

end

end Code

end MemberAccess
