import MemberAccess.Invoker.Compile
import MemberAccess.Proofs.Segments

/-!
Compiling invokers. A field always has its two routines, and a method or constructor has one if no
parameter is by reference and there are fewer than 65535; each statement names the routine and its
greatest stack depth.
-/

namespace MemberAccess

open Code Invoker

namespace Invoker

theorem acceptParams_eq_ok (member : String) {params : List Param}
    (byValue : ∀ q ∈ params, q.byRef = false) (few : params.length < 65535) :
    acceptParams member params = .ok () := by
  have none : params.find? Param.byRef = none := by
    rw [List.find?_eq_none]
    intro q mem
    simp [byValue q mem]
  have bound : params.length ≤ maxParams := Nat.le_of_lt_succ few
  simp only [acceptParams, none, if_pos bound]

theorem of_acceptParams {member : String} {params : List Param}
    (accepted : acceptParams member params = .ok ()) :
    (∀ q ∈ params, q.byRef = false) ∧ params.length < 65535 := by
  unfold acceptParams at accepted
  cases found : params.find? Param.byRef with
  | some q =>
    rw [found] at accepted
    cases accepted
  | none =>
    rw [found] at accepted
    rw [List.find?_eq_none] at found
    by_cases few : params.length ≤ maxParams
    · exact ⟨fun q mem => Bool.eq_false_iff.mpr (found q mem), Nat.lt_succ_of_le few⟩
    · simp only [if_neg few] at accepted
      cases accepted

theorem routineFor_eq_ok (member : String) {b : Body} {n : Nat} (passed : b.check = .ok n) :
    routineFor member b = .ok ⟨b, n, passed⟩ := by
  rw [routineFor, Body.toRoutine_eq_ok passed]
  rfl

variable {arity declared : Nat}

theorem walk_loadArgument {i : UInt16} (bound : i.toNat < arity) (depth peak : Nat) :
    Walk arity declared [.loadArgument i] depth peak (depth + 1) (max peak (depth + 1)) :=
  .single Instr.noConfusion (by simpa using bound) (Nat.zero_le _)

/-- Boxing takes the slot it leaves. -/
theorem walk_boxValue (t : Ty) {peak : Nat} (some : 1 ≤ peak) :
    Walk arity declared (Instr.boxValue t) 1 peak 1 peak := by
  unfold Instr.boxValue
  split
  · have boxed : Walk arity declared [.box t] 1 peak 1 (max peak 1) :=
      .single Instr.noConfusion rfl (Nat.le_refl 1)
    rwa [Nat.max_eq_left some] at boxed
  · exact .nil

/-- A slot is stored into local 0 and loaded again. -/
theorem walk_stage (bound : 0 < declared) {peak : Nat} (some : 1 ≤ peak) :
    Walk arity declared [.storeLocal 0, .loadLocal 0] 1 peak 1 peak := by
  have zero : (0 : UInt16).toNat < declared := bound
  have stored : Walk arity declared [.storeLocal 0] 1 peak 0 (max peak 0) :=
    .single Instr.noConfusion (by simpa using zero) (Nat.le_refl 1)
  have loaded : Walk arity declared [.loadLocal 0] 0 (max peak 0) 1 (max (max peak 0) 1) :=
    .single Instr.noConfusion (by simpa using zero) (Nat.zero_le _)
  rw [Nat.max_zero, Nat.max_eq_left some] at loaded
  rw [Nat.max_zero] at stored
  exact stored.append loaded

theorem walk_construct {c : Constructor} {n : Nat} (count : n = c.params.length) {peak : Nat} :
    Walk arity declared [.newobj c] n peak 1 (max peak 1) := by
  have after : (Instr.newobj c).depthAfter n = 1 := by
    rw [count]
    exact congrArg (· + 1) (Nat.sub_self c.params.length)
  have walked : Walk arity declared [.newobj c] n peak ((Instr.newobj c).depthAfter n)
      (max peak ((Instr.newobj c).depthAfter n)) :=
    .single Instr.noConfusion rfl (Nat.le_of_eq count.symm)
  rwa [after] at walked

/-- The entries that a call takes besides the arguments. -/
def receivers (m : Method) : Nat :=
  if m.isStatic then 0 else 1

theorem pops_callMethod (m : Method) :
    (Instr.callMethod m).pops = m.params.length + receivers m := by
  unfold Instr.callMethod receivers
  split <;> simp [Instr.pops, *]

theorem pushes_callMethod (m : Method) :
    (Instr.callMethod m).pushes = if m.returns.isVoid then 0 else 1 := by
  unfold Instr.callMethod
  split <;> rfl

theorem walk_receiver (m : Method) (policy : Policy) (bound : 0 < arity) (peak : Nat) :
    Walk arity declared (MethodInvoker.receiver m policy) 0 peak (receivers m)
      (max peak (receivers m)) := by
  unfold MethodInvoker.receiver receivers
  split
  · rw [Nat.max_zero]
    exact .nil
  · have loaded : Walk arity declared [.loadArgument 0] 0 peak 1 (max peak 1) :=
      walk_loadArgument bound 0 peak
    have cast := loaded.append (walk_castReceiver policy m.declaring 0 (max peak 1))
    have peaks : (if policy = .checked then max (max peak 1) 1 else max peak 1) = max peak 1 := by
      split <;> omega
    rwa [peaks] at cast

/-- After the call the stack holds what the method gives, or null in place of it. -/
theorem walk_callMethod (m : Method) {n : Nat} (count : n = receivers m + m.params.length)
    (peak : Nat) :
    Walk arity declared ([.callMethod m] ++ MethodInvoker.result m) n peak 1 (max peak 1) := by
  have notRet : Instr.callMethod m ≠ .ret := by
    unfold Instr.callMethod
    split <;> exact Instr.noConfusion
  have named : (Instr.callMethod m).inScope arity declared = true := by
    unfold Instr.callMethod
    split <;> rfl
  have enough : (Instr.callMethod m).pops ≤ n := by
    rw [pops_callMethod]
    omega
  have after : (Instr.callMethod m).depthAfter n = if m.returns.isVoid then 0 else 1 := by
    rw [Instr.depthAfter, pops_callMethod, pushes_callMethod]
    omega
  have called : Walk arity declared [.callMethod m] n peak ((Instr.callMethod m).depthAfter n)
      (max peak ((Instr.callMethod m).depthAfter n)) :=
    .single notRet named enough
  rw [after] at called
  refine called.append ?_
  unfold MethodInvoker.result
  by_cases noResult : m.returns.isVoid
  · simp only [if_pos noResult, Nat.max_zero]
    exact .single Instr.noConfusion rfl (Nat.zero_le _)
  · simp only [if_neg noResult]
    exact walk_boxValue m.returns (Nat.le_max_right peak 1)

/-- The greatest depth on the way to a call with `n` arguments above `below` other entries. -/
def argumentDepth (below n : Nat) : Nat :=
  max (below + n) (if n = 0 then 1 else 2)

end Invoker

namespace ConstructorInvoker

def maxStack (c : Constructor) : Nat :=
  argumentDepth 0 c.params.length

theorem check_body (r : Registry) {c : Constructor} (few : c.params.length < 65535) :
    (body r c).check = .ok (maxStack c) := by
  have size : (body r c).locals.size = c.params.length + 1 := by simp [body]
  have unpacked : Walk 1 (c.params.length + 1) (unpackFrom 0 1 0 c.params) 0 0 0 _ :=
    walk_unpackFrom Nat.zero_lt_one 1 0 c.params (by omega) (by omega) 0 0
  have reloaded := unpacked.append
    (walk_reload (Nat.le_of_eq (Nat.add_comm 1 c.params.length)) (by omega) 0 _)
  have created := reloaded.append (walk_construct (Nat.zero_add _))
  have staged := created.append (walk_stage (Nat.succ_pos _) (Nat.le_max_right _ 1))
  have boxed := staged.append (walk_boxValue c.declaring (Nat.le_max_right _ 1))
  have peaks : maxStack c = max (if c.params.length = 0
      then if c.params.length = 0 then 0 else max 0 (0 + 2)
      else max (if c.params.length = 0 then 0 else max 0 (0 + 2)) (0 + c.params.length)) 1 := by
    unfold maxStack argumentDepth
    split <;> omega
  rw [peaks]
  refine Body.check_eq_ok size ?_ boxed
  simp [body, code, unpack_eq_unpackFrom]

/-- Compiling a constructor gives the routine made of its body. -/
theorem compile_eq_ok (r : Registry) {c : Constructor} (byValue : ∀ q ∈ c.params, q.byRef = false)
    (few : c.params.length < 65535) :
    compile r c = .ok ⟨c, body r c, maxStack c, check_body r few⟩ := by
  rw [compile, acceptParams_eq_ok _ byValue few, routineFor_eq_ok _ (check_body r few)]
  rfl

theorem of_compile {r : Registry} {c : Constructor} {i : ConstructorInvoker}
    (compiled : compile r c = .ok i) :
    i.routine.body = body r c ∧ i = ⟨c, i.routine⟩ ∧ c.params.length < 65535 := by
  cases accepted : acceptParams (r.constructorLabel c) c.params with
  | error e =>
    rw [compile, accepted] at compiled
    cases compiled
  | ok _ =>
    obtain ⟨byValue, few⟩ := of_acceptParams accepted
    rw [compile_eq_ok r byValue few] at compiled
    cases compiled
    exact ⟨rfl, rfl, few⟩

end ConstructorInvoker

namespace MethodInvoker

def maxStack (m : Method) : Nat :=
  argumentDepth (receivers m) m.params.length

theorem check_body (r : Registry) {m : Method} (policy : Policy) (few : m.params.length < 65535) :
    (body r m policy).check = .ok (maxStack m) := by
  have size : (body r m policy).locals.size = m.params.length := by simp [body]
  have unpacked : Walk 2 m.params.length (unpackFrom 1 0 0 m.params) 0 0 0 _ :=
    walk_unpackFrom Nat.one_lt_two 0 0 m.params (by omega) (by omega) 0 0
  have received := unpacked.append (walk_receiver m policy Nat.zero_lt_two _)
  have reloaded := received.append
    (walk_reload (Nat.le_of_eq (Nat.zero_add m.params.length)) (by omega) _ _)
  have called := reloaded.append (walk_callMethod m rfl _)
  have peaks : maxStack m = max (if m.params.length = 0
      then max (if m.params.length = 0 then 0 else max 0 (0 + 2)) (receivers m)
      else max (max (if m.params.length = 0 then 0 else max 0 (0 + 2)) (receivers m))
        (receivers m + m.params.length)) 1 := by
    unfold maxStack argumentDepth receivers
    split <;> split <;> omega
  rw [peaks]
  refine Body.check_eq_ok size ?_ called
  simp [body, code, unpack_eq_unpackFrom]

theorem compile_eq_ok (r : Registry) {m : Method} (policy : Policy)
    (byValue : ∀ q ∈ m.params, q.byRef = false) (few : m.params.length < 65535) :
    compile r m policy = .ok ⟨m, body r m policy, maxStack m, check_body r policy few⟩ := by
  rw [compile, acceptParams_eq_ok _ byValue few, routineFor_eq_ok _ (check_body r policy few)]
  rfl

theorem of_compile {r : Registry} {m : Method} {policy : Policy} {i : MethodInvoker}
    (compiled : compile r m policy = .ok i) :
    i.routine.body = body r m policy ∧ i = ⟨m, i.routine⟩ ∧ m.params.length < 65535 := by
  cases accepted : acceptParams (r.methodLabel m) m.params with
  | error e =>
    rw [compile, accepted] at compiled
    cases compiled
  | ok _ =>
    obtain ⟨byValue, few⟩ := of_acceptParams accepted
    rw [compile_eq_ok r policy byValue few] at compiled
    cases compiled
    exact ⟨rfl, rfl, few⟩

end MethodInvoker

namespace Invoker

theorem walk_loadReceiver (f : Field) (policy : Policy) (bound : 0 < arity) :
    Walk arity declared (f.loadReceiver policy) 0 0 1 1 := by
  have loaded : Walk arity declared [.loadArgument 0] 0 0 1 1 := walk_loadArgument bound 0 0
  unfold Field.loadReceiver
  split
  · exact loaded
  · have cast := loaded.append (walk_castReceiver policy f.declaring 0 1)
    rwa [Nat.max_self, ite_self] at cast

end Invoker

namespace FieldReader

theorem check_body (r : Registry) (f : Field) (policy : Policy) :
    (body r f policy).check = .ok 1 := by
  have received : Walk 1 1 (f.loadReceiver policy) 0 0 1 1 :=
    walk_loadReceiver f policy Nat.zero_lt_one
  have loaded : Walk 1 1 [.ldfld f] 1 1 1 1 := .single Instr.noConfusion rfl (Nat.le_refl 1)
  have staged := (received.append loaded).append (walk_stage Nat.zero_lt_one (Nat.le_refl 1))
  have boxed := staged.append (walk_boxValue f.type (Nat.le_refl 1))
  refine Body.check_eq_ok rfl ?_ boxed
  simp [body, code]

theorem compile_eq_ok (r : Registry) (f : Field) (policy : Policy) :
    compile r f policy = .ok ⟨f, body r f policy, 1, check_body r f policy⟩ := by
  rw [compile, routineFor_eq_ok _ (check_body r f policy)]
  rfl

theorem of_compile {r : Registry} {f : Field} {policy : Policy} {i : FieldReader}
    (compiled : compile r f policy = .ok i) :
    i.routine.body = body r f policy ∧ i = ⟨f, i.routine⟩ := by
  rw [compile_eq_ok r f policy] at compiled
  cases compiled
  exact ⟨rfl, rfl⟩

end FieldReader

namespace FieldWriter

theorem check_body (r : Registry) (f : Field) (policy : Policy) :
    (body r f policy).check = .ok 2 := by
  have received : Walk 2 0 (f.loadReceiver policy) 0 0 1 1 :=
    walk_loadReceiver f policy Nat.zero_lt_two
  have loaded := received.append (walk_loadArgument (i := 1) Nat.one_lt_two 1 1)
  have coerced : Walk 2 0 [.coerce f.type] 2 2 2 2 := by
    have walked : Walk 2 0 [.coerce f.type] 2 2 ((Instr.coerce f.type).depthAfter 2)
        (max 2 ((Instr.coerce f.type).depthAfter 2)) :=
      .single (Instr.coerce_ne_ret _) (Instr.inScope_coerce 2 0 _)
        (Instr.pops_coerce f.type ▸ Nat.le_succ 1)
    rwa [Instr.depthAfter_coerce] at walked
  have stored : Walk 2 0 [.stfld f] 2 2 0 2 := .single Instr.noConfusion rfl (Nat.le_refl 2)
  refine Body.check_eq_ok rfl ?_ ((loaded.append coerced).append stored)
  simp [body, code]

theorem compile_eq_ok (r : Registry) (f : Field) (policy : Policy) :
    compile r f policy = .ok ⟨f, body r f policy, 2, check_body r f policy⟩ := by
  rw [compile, routineFor_eq_ok _ (check_body r f policy)]
  rfl

theorem of_compile {r : Registry} {f : Field} {policy : Policy} {i : FieldWriter}
    (compiled : compile r f policy = .ok i) :
    i.routine.body = body r f policy ∧ i = ⟨f, i.routine⟩ := by
  rw [compile_eq_ok r f policy] at compiled
  cases compiled
  exact ⟨rfl, rfl⟩

end FieldWriter

end MemberAccess
