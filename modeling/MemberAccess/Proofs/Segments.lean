import MemberAccess.Invoker.Convention
import MemberAccess.Proofs.Depth
import MemberAccess.Proofs.Instructions

/-!
The segments that invokers are made of. Unpacking converts the elements of an array argument in
order into consecutive locals, and reloading puts these on the stack in the same order. Both are
stated for any number of parameters, together with the depths that the check meets on the way.
-/

namespace MemberAccess

namespace Code

namespace Instr

section

variable (arity declared depth : Nat)

@[simp] theorem inScope_loadArgument (i : UInt16) :
    (loadArgument i).inScope arity declared = decide (i.toNat < arity) := by
  rw [loadArgument, inScope, Index.toNat_select]

@[simp] theorem inScope_loadLocal (i : UInt16) :
    (loadLocal i).inScope arity declared = decide (i.toNat < declared) := by
  rw [loadLocal, inScope, Index.toNat_select]

@[simp] theorem inScope_storeLocal (i : UInt16) :
    (storeLocal i).inScope arity declared = decide (i.toNat < declared) := by
  rw [storeLocal, inScope, Index.toNat_select]

@[simp] theorem inScope_coerce (t : Ty) : (coerce t).inScope arity declared = true := by
  unfold coerce
  split <;> rfl

@[simp] theorem pops_coerce (t : Ty) : (coerce t).pops = 1 := by
  unfold coerce
  split <;> rfl

@[simp] theorem depthAfter_coerce (t : Ty) : (coerce t).depthAfter depth = depth - 1 + 1 := by
  unfold coerce
  split <;> rfl

@[simp] theorem coerce_ne_ret (t : Ty) : coerce t ≠ .ret := by
  unfold coerce
  split <;> simp

end

end Instr

theorem toNat_ofNat_index {i size : Nat} (bound : i < size) (small : size ≤ 65536) :
    (UInt16.ofNat i).toNat = i :=
  UInt16.toNat_ofNat_of_lt (Nat.lt_of_lt_of_le bound small)

namespace Machine

/-- Fills consecutive locals. -/
def setLocals (m : Machine) : Nat → List Slot → Machine
  | _, [] => m
  | i, s :: rest => (m.setLocal i s).setLocals (i + 1) rest

@[simp] theorem size_setLocals (m : Machine) (i : Nat) (slots : List Slot) :
    (m.setLocals i slots).locals.size = m.locals.size := by
  induction slots generalizing m i with
  | nil => rfl
  | cons s rest ih => rw [setLocals, ih, size_setLocal]

theorem locals_setLocals_of_lt (m : Machine) {i j : Nat} (slots : List Slot) (before : j < i) :
    (m.setLocals i slots).locals[j]? = m.locals[j]? := by
  induction slots generalizing m i with
  | nil => rfl
  | cons s rest ih =>
    rw [setLocals, ih (m.setLocal i s) (Nat.lt_succ_of_lt before)]
    exact locals_setLocal_of_ne m s (Nat.ne_of_gt before)

theorem locals_setLocals (m : Machine) {i j : Nat} {slots : List Slot}
    (fits : i + slots.length ≤ m.locals.size) (bound : j < slots.length) :
    (m.setLocals i slots).locals[i + j]? = some slots[j] := by
  induction slots generalizing m i j with
  | nil => cases bound
  | cons s rest ih =>
    rw [List.length_cons] at fits bound
    cases j with
    | zero =>
      rw [setLocals, locals_setLocals_of_lt _ _ (by omega)]
      exact locals_setLocal m s (by omega)
    | succ j =>
      have fits' : i + 1 + rest.length ≤ (m.setLocal i s).locals.size := by
        rw [size_setLocal]
        omega
      rw [show i + (j + 1) = i + 1 + j by omega]
      exact ih (m.setLocal i s) fits' (by omega)

end Machine

end Code

namespace Invoker

open Code

/-- The instructions that take element `i` of an array argument to its local. -/
def unpackElement (arrayArgument : UInt16) (firstLocal i : Nat) (q : Param) : List Instr :=
  [.loadArgument arrayArgument, .loadConstant (Int32.ofNat i), .ldelemRef, .coerce q.type,
    .storeLocal (UInt16.ofNat (firstLocal + i))]

/-- Unpacking from element `i` on. -/
def unpackFrom (arrayArgument : UInt16) (firstLocal : Nat) : Nat → List Param → List Instr
  | _, [] => []
  | i, q :: rest =>
    unpackElement arrayArgument firstLocal i q ++ unpackFrom arrayArgument firstLocal (i + 1) rest

theorem unpack_eq_unpackFrom (arrayArgument : UInt16) (firstLocal : Nat) (params : List Param) :
    unpack arrayArgument firstLocal params = unpackFrom arrayArgument firstLocal 0 params := by
  suffices fromElement : ∀ i, ((params.zipIdx i).flatMap fun element =>
      unpackElement arrayArgument firstLocal element.2 element.1) =
        unpackFrom arrayArgument firstLocal i params from
    fromElement 0
  induction params with
  | nil => exact fun _ => rfl
  | cons q rest ih =>
    intro i
    rw [List.zipIdx_cons, List.flatMap_cons, ih (i + 1)]
    rfl

theorem reload_succ (firstLocal n : Nat) :
    reload firstLocal (n + 1) =
      reload firstLocal n ++ [.loadLocal (UInt16.ofNat (firstLocal + n))] := by
  simp [reload, List.range_succ]

/-- Converts the elements from `i` on to the types of the parameters, up to the first one that is
missing or does not convert. -/
def convertFrom (r : Registry) (a : Array Value) : Nat → List Param → RunM (List Slot)
  | _, [] => pure []
  | i, q :: rest => do
    let v ← Run.ofExcept (elementAt a (Int32.ofNat i))
    let s ← v.coerce r q.type
    let slots ← convertFrom r a (i + 1) rest
    return s :: slots

theorem length_convertFrom (r : Registry) (a : Array Value) (i : Nat) (params : List Param) :
    (convertFrom r a i params).Yields (·.length = params.length) := by
  induction params generalizing i with
  | nil => exact .pure rfl
  | cons q rest ih =>
    refine .bind (.trivial _) fun v _ => ?_
    refine .bind (.trivial _) fun s _ => ?_
    refine .bind (ih (i + 1)) fun slots count => ?_
    exact .pure (congrArg Nat.succ count)

namespace Policy

/-- The receiver that a member gets to see. -/
def pass (policy : Policy) (r : Registry) (declaring : Ty) (this : Value) :
    Except InvokeError Value :=
  match policy with
  | checked => this.cast r declaring
  | trusted => .ok this

end Policy

section Running

variable (p : Program) (returnsValue : Bool) {args : Array Argument}

theorem exec_unpackElement {k : UInt16} {a : Array Value}
    (array : args[k.toNat]? = some (.array a)) (first i : Nat) (q : Param) (m : Machine)
    (bound : first + i < m.locals.size) (small : m.locals.size ≤ 65536) :
    exec p returnsValue args (unpackElement k first i q) m =
      ExecM.run (do (← Run.ofExcept (elementAt a (Int32.ofNat i))).coerce p.registry q.type) >>=
        fun s => pure (m.setLocal (first + i) s) := by
  have stored (s : Slot) :
      step p returnsValue args (.storeLocal (UInt16.ofNat (first + i))) (m.push s) =
        pure (m.setLocal (first + i) s) := by
    have index := toNat_ofNat_index bound small
    rw [step_storeLocal p returnsValue args m s (index.symm ▸ bound), index]
  simp only [unpackElement, exec, step_loadArgument_array p returnsValue args m array,
    step_loadConstant, step_ldelemRef, step_coerce, stored, pure_bind, bind_assoc, bind_pure,
    ExecM.run_bind]

/-- Unpacking fills the locals with the converted elements, or fails as the conversion does. -/
theorem exec_unpackFrom {k : UInt16} {a : Array Value}
    (array : args[k.toNat]? = some (.array a)) (first i : Nat) (params : List Param) (m : Machine)
    (fits : first + i + params.length ≤ m.locals.size) (small : m.locals.size ≤ 65536) :
    exec p returnsValue args (unpackFrom k first i params) m =
      ExecM.run (convertFrom p.registry a i params) >>= fun slots =>
        pure (m.setLocals (first + i) slots) := by
  induction params generalizing i m with
  | nil => rfl
  | cons q rest ih =>
    rw [List.length_cons] at fits
    -- The rest runs with one more local set, which is why the machine is general in the induction.
    have later (s : Slot) :
        exec p returnsValue args (unpackFrom k first (i + 1) rest) (m.setLocal (first + i) s) =
          ExecM.run (convertFrom p.registry a (i + 1) rest) >>= fun slots =>
            pure (m.setLocals (first + i) (s :: slots)) := by
      apply ih (i + 1) (m.setLocal (first + i) s)
      · rw [Machine.size_setLocal]
        omega
      · rw [Machine.size_setLocal]
        exact small
    rw [unpackFrom, exec_append,
      exec_unpackElement p returnsValue array first i q m (by omega) small]
    simp only [convertFrom, ExecM.run_bind, bind_assoc, pure_bind, later, ExecM.run_pure]

/-- Reloading pushes what the locals hold, the first one deepest. -/
theorem exec_reload (first : Nat) (slots : List Slot) (m : Machine)
    (held : ∀ j (bound : j < slots.length), m.locals[first + j]? = some slots[j])
    (small : first + slots.length ≤ 65536) :
    exec p returnsValue args (reload first slots.length) m = pure (m.pushAll slots) := by
  -- After `n` loads the first `n` slots are on the stack, and loading changes no local.
  suffices upTo : ∀ n ≤ slots.length,
      exec p returnsValue args (reload first n) m = pure (m.pushAll (slots.take n)) by
    simpa using upTo slots.length (Nat.le_refl _)
  intro n
  induction n with
  | zero => exact fun _ => rfl
  | succ n ih =>
    intro bound
    have index := toNat_ofNat_index (Nat.add_lt_add_left bound first) small
    have found : (m.pushAll (slots.take n)).locals[(UInt16.ofNat (first + n)).toNat]? =
        some slots[n] := by
      rw [index, Machine.pushAll_eq]
      exact held n bound
    have loaded := step_loadLocal p returnsValue args (m.pushAll (slots.take n)) found
    rw [reload_succ, exec_append, ih (Nat.le_of_succ_le bound), pure_bind, exec_singleton, loaded,
      List.take_succ_eq_append_getElem bound, Machine.pushAll_concat]

theorem exec_castReceiver (policy : Policy) (t : Ty) (m : Machine) (v : Value) :
    exec p returnsValue args (castReceiver policy t) (m.push (.ref v)) =
      ExecM.run (.ofExcept (policy.pass p.registry t v)) >>= fun v => pure (m.push (.ref v)) := by
  cases policy with
  | checked => simp only [castReceiver, exec_singleton, step_castclass, Policy.pass]
  | trusted => rfl

end Running

section Walking

variable {arity declared : Nat}

theorem walk_unpackElement {k : UInt16} (array : k.toNat < arity) (first i : Nat) (q : Param)
    (bound : first + i < declared) (small : declared ≤ 65536) (depth peak : Nat) :
    Walk arity declared (unpackElement k first i q) depth peak depth (max peak (depth + 2)) := by
  have index := toNat_ofNat_index bound small
  refine ⟨⟨Instr.noConfusion, ?_, Nat.zero_le _, Instr.noConfusion, rfl, Nat.zero_le _,
    Instr.noConfusion, rfl, ?_, Instr.coerce_ne_ret _, Instr.inScope_coerce _ _ _, ?_,
    Instr.noConfusion, ?_, ?_, True.intro⟩, ?_, ?_⟩
  · simpa using array
  · exact Nat.le_add_left 2 depth
  · rw [Instr.pops_coerce]
    exact Nat.le_add_left 1 _
  · rw [Instr.inScope_storeLocal, index]
    exact decide_eq_true bound
  · rw [Instr.depthAfter_coerce]
    exact Nat.le_add_left 1 _
  · simp only [unpackElement, depthAfter, Instr.depthAfter_coerce]
    rfl
  · simp only [unpackElement, peakAfter, Instr.depthAfter_coerce]
    simp only [Instr.loadArgument, Instr.loadConstant, Instr.storeLocal, Instr.depthAfter,
      Instr.pops, Instr.pushes]
    omega

/-- Unpacking needs two more entries, unless there is nothing to unpack. -/
theorem walk_unpackFrom {k : UInt16} (array : k.toNat < arity) (first i : Nat)
    (params : List Param) (fits : first + i + params.length ≤ declared)
    (small : declared ≤ 65536) (depth peak : Nat) :
    Walk arity declared (unpackFrom k first i params) depth peak depth
      (if params.length = 0 then peak else max peak (depth + 2)) := by
  induction params generalizing i peak with
  | nil => exact .nil
  | cons q rest ih =>
    rw [List.length_cons] at fits
    have element := walk_unpackElement array first i q (by omega) small depth peak
    have later := ih (i + 1) (by omega) (max peak (depth + 2))
    have peaks : (if rest.length = 0 then max peak (depth + 2)
        else max (max peak (depth + 2)) (depth + 2)) = max peak (depth + 2) := by
      split <;> simp
    rw [peaks] at later
    exact element.append later

theorem walk_reload {first n : Nat} (fits : first + n ≤ declared) (small : declared ≤ 65536)
    (depth peak : Nat) :
    Walk arity declared (reload first n) depth peak (depth + n)
      (if n = 0 then peak else max peak (depth + n)) := by
  induction n with
  | zero => exact .nil
  | succ n ih =>
    have bound : first + n < declared := fits
    have named : (Instr.loadLocal (UInt16.ofNat (first + n))).inScope arity declared = true := by
      rw [Instr.inScope_loadLocal, toNat_ofNat_index bound small]
      exact decide_eq_true bound
    have last : Walk arity declared [.loadLocal (UInt16.ofNat (first + n))] (depth + n)
        (if n = 0 then peak else max peak (depth + n)) (depth + n + 1)
        (max (if n = 0 then peak else max peak (depth + n)) (depth + n + 1)) :=
      .single Instr.noConfusion named (Nat.zero_le _)
    have peaks : max (if n = 0 then peak else max peak (depth + n)) (depth + n + 1) =
        max peak (depth + (n + 1)) := by
      split <;> omega
    rw [peaks] at last
    rw [reload_succ]
    exact (ih (Nat.le_of_lt bound)).append last

theorem walk_castReceiver (policy : Policy) (t : Ty) (depth peak : Nat) :
    Walk arity declared (castReceiver policy t) (depth + 1) peak (depth + 1)
      (if policy = .checked then max peak (depth + 1) else peak) := by
  cases policy with
  | checked => exact .single Instr.noConfusion rfl (Nat.le_add_left 1 depth)
  | trusted => exact .nil

end Walking

end Invoker

end MemberAccess
