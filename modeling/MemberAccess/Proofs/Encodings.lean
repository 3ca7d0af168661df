import Mathlib.Data.List.Forall2
import MemberAccess.Proofs.CheckedRuns

/-!
Encodings of the same code. Instructions that differ only in the form of their operand take the same
steps, so bodies made of them pass the same check and run alike. They differ in size, and the forms
that are selected give the smallest body.
-/

namespace MemberAccess.Code

/-- The index itself, of which every form is an encoding. -/
def Index.value (i : Index) : UInt16 := .ofNat i.toNat

theorem Index.toNat_value (i : Index) : i.value.toNat = i.toNat := by
  have bound : i.toNat < 65536 := by
    cases i with
    | inline i => exact Nat.lt_trans i.isLt (by decide)
    | short i => exact Nat.lt_trans i.toNat_lt (by decide)
    | long i => exact i.toNat_lt
  exact UInt16.toNat_ofNat_of_lt' bound

/-- The error without what depends on the encoding: the offset and the mnemonic. -/
def BodyError.unplaced : BodyError → BodyError
  | localOutOfRange _ index declared => localOutOfRange 0 index declared
  | argumentOutOfRange _ index arity => argumentOutOfRange 0 index arity
  | stackUnderflow _ _ depth => stackUnderflow 0 "" depth
  | stackImbalance _ depth expected => stackImbalance 0 depth expected
  | unreachableCode _ => unreachableCode 0
  | e => e

namespace Instr

/-- Whether an instruction is another one, with its operand in any of the forms. -/
inductive Recodes : Instr → Instr → Prop
  | ldarg {x y : Index} (same : x.toNat = y.toNat) : Recodes (.ldarg x) (.ldarg y)
  | ldloc {x y : Index} (same : x.toNat = y.toNat) : Recodes (.ldloc x) (.ldloc y)
  | stloc {x y : Index} (same : x.toNat = y.toNat) : Recodes (.stloc x) (.stloc y)
  | ldcI4 {m n : Constant} (same : m.toInt32 = n.toInt32) : Recodes (.ldcI4 m) (.ldcI4 n)
  | refl (i : Instr) : Recodes i i

/-- The instruction with its operand in the form that is selected for it. -/
def shortest : Instr → Instr
  | ldarg x => loadArgument x.value
  | ldloc x => loadLocal x.value
  | stloc x => storeLocal x.value
  | ldcI4 n => loadConstant n.toInt32
  | i => i

theorem recodes_shortest (i : Instr) : i.Recodes i.shortest := by
  have selected (x : Index) : x.toNat = (Index.select x.value).toNat :=
    ((Index.toNat_select x.value).trans x.toNat_value).symm
  cases i with
  | ldarg x => exact .ldarg (selected x)
  | ldloc x => exact .ldloc (selected x)
  | stloc x => exact .stloc (selected x)
  | ldcI4 n => exact .ldcI4 (Constant.toInt32_select n.toInt32).symm
  | _ => exact .refl _

namespace Recodes

variable {i j : Instr} (recodes : i.Recodes j)

include recodes

theorem pops : j.pops = i.pops := by
  cases recodes <;> rfl

theorem pushes : j.pushes = i.pushes := by
  cases recodes <;> rfl

theorem eq_ret_iff : j = .ret ↔ i = .ret := by
  cases recodes <;> simp

/-- Whether an operand names something that is declared does not depend on its form. -/
theorem operandError? (arity declared offset offset' : Nat) :
    (Body.operandError? arity declared offset' j).map BodyError.unplaced =
      (Body.operandError? arity declared offset i).map BodyError.unplaced := by
  cases recodes with
  | ldarg same | ldloc same | stloc same =>
    simp only [Body.operandError?, same]
    split <;> rfl
  | ldcI4 same => rfl
  | refl i =>
    cases i <;> simp only [Body.operandError?] <;> split <;> rfl

/-- Operands are decoded before a step is taken. -/
theorem step (p : Program) (returnsValue : Bool) (args : Array Argument) (m : Machine) :
    step p returnsValue args j m = step p returnsValue args i m := by
  cases recodes with
  | ldarg same | ldloc same | stloc same | ldcI4 same => simp [Code.step, Instr.pops, same]
  | refl i => rfl

/-- The selected form is that of the decoded operand. -/
theorem shortest : j.shortest = i.shortest := by
  cases recodes with
  | ldarg same | ldloc same | stloc same => simp only [Instr.shortest, Index.value, same]
  | ldcI4 same => simp only [Instr.shortest, same]
  | refl i => rfl

theorem size_shortest_le : i.shortest.size ≤ j.size := by
  cases recodes with
  | ldarg same | ldloc same | stloc same =>
    exact Index.size_select_le (same.symm.trans (Index.toNat_value _).symm)
  | ldcI4 same => exact Constant.size_select_le same.symm
  | refl i =>
    cases i with
    | ldarg x | ldloc x | stloc x => exact Index.size_select_le x.toNat_value.symm
    | ldcI4 n => exact Constant.size_select_le rfl
    | _ => exact Nat.le_refl _

end Recodes

end Instr

theorem foldl_size (code : List Instr) (n : Nat) :
    code.foldl (fun n i => n + i.size) n = n + codeSize code := by
  induction code generalizing n with
  | nil => rfl
  | cons i rest ih => rw [List.foldl_cons, ih, codeSize, Nat.add_assoc]

section Code

variable {code code' : List Instr} (recodes : List.Forall₂ Instr.Recodes code code')

include recodes

/-- The check takes the same turns in both, at offsets of their own. -/
theorem Body.checkFrom_recodes (arity declared expected offset offset' depth peak : Nat) :
    (checkFrom arity declared expected code' offset' depth peak).mapError BodyError.unplaced =
      (checkFrom arity declared expected code offset depth peak).mapError BodyError.unplaced := by
  induction recodes generalizing offset offset' depth peak with
  | nil => rfl
  | @cons i j rest rest' first later ih =>
    have operand := first.operandError? arity declared offset offset'
    have ended : rest'.isEmpty = rest.isEmpty := by cases later <;> rfl
    simp only [checkFrom, first.pops, first.pushes, first.eq_ret_iff, ended]
    cases refused : operandError? arity declared offset i with
    | some e =>
      rw [refused] at operand
      obtain ⟨e', refused', same⟩ := Option.map_eq_some_iff.mp operand
      rw [refused']
      exact congrArg Except.error same
    | none =>
      rw [refused] at operand
      rw [Option.map_eq_none_iff.mp operand]
      by_cases last : i = .ret
      · simp only [if_pos last]
        split
        · rfl
        · split <;> rfl
      · simp only [if_neg last]
        split
        · rfl
        · exact ih _ _ _ _

theorem exec_recodes (p : Program) (returnsValue : Bool) (args : Array Argument) (m : Machine) :
    exec p returnsValue args code' m = exec p returnsValue args code m := by
  induction recodes generalizing m with
  | nil => rfl
  | cons first _ ih => simp only [exec, first.step, ih]

theorem map_shortest_recodes : code'.map Instr.shortest = code.map Instr.shortest := by
  induction recodes with
  | nil => rfl
  | cons first _ ih => simp only [List.map_cons, first.shortest, ih]

theorem codeSize_shortest_le : codeSize (code.map Instr.shortest) ≤ codeSize code' := by
  induction recodes with
  | nil => exact Nat.le_refl 0
  | cons first _ ih => exact Nat.add_le_add first.size_shortest_le ih

end Code

namespace Body

/-- Whether a body is another one up to the forms of the operands. -/
structure Recodes (b b' : Body) : Prop where
  name : b'.name = b.name
  signature : b'.signature = b.signature
  locals : b'.locals = b.locals
  code : List.Forall₂ Instr.Recodes b.code.toList b'.code.toList

/-- The body with every operand in the form that is selected for it. -/
def shortest (b : Body) : Body :=
  { b with code := b.code.map Instr.shortest }

theorem recodes_shortest (b : Body) : b.Recodes b.shortest where
  name := rfl
  signature := rfl
  locals := rfl
  code := by
    simp [shortest, List.forall₂_map_right_iff, List.forall₂_same, Instr.recodes_shortest]

theorem size_eq_codeSize (b : Body) : b.size = codeSize b.code.toList := by
  rw [size, ← Array.foldl_toList, foldl_size, Nat.zero_add]

namespace Recodes

variable {b b' : Body} (recodes : b.Recodes b')

include recodes

theorem check : b'.check.mapError BodyError.unplaced = b.check.mapError BodyError.unplaced := by
  simp only [Body.check, recodes.signature, recodes.locals]
  exact checkFrom_recodes recodes.code ..

theorem check_eq_ok_iff (n : Nat) : b'.check = .ok n ↔ b.check = .ok n := by
  have same := recodes.check
  cases first : b.check <;> cases second : b'.check <;> simp_all [Except.mapError]

theorem shortest : b'.shortest = b.shortest := by
  have code : b'.code.map Instr.shortest = b.code.map Instr.shortest := by
    apply Array.toList_inj.mp
    simp only [Array.toList_map, map_shortest_recodes recodes.code]
  simp only [Body.shortest, recodes.name, recodes.signature, recodes.locals, code]

theorem size_shortest_le : b.shortest.size ≤ b'.size := by
  rw [size_eq_codeSize, size_eq_codeSize]
  simpa only [Body.shortest, Array.toList_map] using codeSize_shortest_le recodes.code

end Recodes

end Body

/-- Neither the arguments that are taken nor the run depends on the forms of operands. -/
theorem Routine.run_recodes {f f' : Routine} (recodes : f.body.Recodes f'.body) (p : Program)
    (args : Array Argument) : f'.run p args = f.run p args := by
  have signature : f'.signature = f.signature := recodes.signature
  have name : f'.name = f.name := recodes.name
  have taken : f'.checkArguments args = f.checkArguments args := by
    simp only [checkArguments, signature, name]
  have start : f'.start p.registry = f.start p.registry := by
    simp only [Routine.start, recodes.locals]
  have result (m : Machine) : f'.resultOf m = f.resultOf m := by
    simp only [resultOf, signature, name]
  simp only [run, runChecked, taken, start, result, signature, exec_recodes recodes.code]

namespace Body

/-- Bodies that differ only in the forms of their operands are accepted alike, at the same greatest
depth, and then run alike; or they are refused alike, for the same defect. With the selected forms
they are the same body, and none of them is smaller. -/
theorem encodings_agree {b b' : Body} (recodes : b.Recodes b') :
    (∀ n, b.check = .ok n ↔ b'.check = .ok n) ∧
      (∀ e, b.check = .error e → ∃ e', b'.check = .error e' ∧ e'.unplaced = e.unplaced) ∧
      (∀ f, b.toRoutine = .ok f → ∃ f', b'.toRoutine = .ok f' ∧ f'.maxStack = f.maxStack ∧
        ∀ p args h, f'.run p args h = f.run p args h) ∧
      b.Recodes b.shortest ∧ b'.shortest = b.shortest ∧ b.shortest.size ≤ b'.size := by
  refine ⟨fun n => (recodes.check_eq_ok_iff n).symm, fun e refused => ?refused,
    fun f accepted => ?runs, b.recodes_shortest, recodes.shortest, recodes.size_shortest_le⟩
  case refused =>
    have same := recodes.check
    rw [refused] at same
    cases second : b'.check with
    | ok n =>
      rw [second] at same
      cases same
    | error e' =>
      rw [second] at same
      exact ⟨e', rfl, Except.error.inj same⟩
  case runs =>
    obtain rfl := body_of_toRoutine accepted
    have passed := (recodes.check_eq_ok_iff f.maxStack).mpr f.checked
    exact ⟨⟨b', f.maxStack, passed⟩, toRoutine_eq_ok passed, rfl, fun p args h =>
      congrFun (Routine.run_recodes recodes p args) h⟩

end Body

/-- The code of `intervalBody` in the longest forms. -/
def intervalBodyLong : Body where
  name := "interval"
  signature := ⟨[.objectArray], true⟩
  locals := #[.int32]
  code := #[.ldarg (.long 0), .ldcI4 (.long 0), .ldelemRef, .unboxAny .int32, .stloc (.long 0),
    .ldloc (.long 0), .ldarg (.long 0), .ldcI4 (.long 1), .ldelemRef, .unboxAny .int32,
    .newobj Interval.make, .box Interval.make.declaring, .ret]

theorem intervalBody_recodes_long : intervalBody.Recodes intervalBodyLong where
  name := rfl
  signature := rfl
  locals := rfl
  code :=
    .cons (.ldarg rfl) <| .cons (.ldcI4 rfl) <| .cons (.refl _) <| .cons (.refl _) <|
    .cons (.stloc rfl) <| .cons (.ldloc rfl) <| .cons (.ldarg rfl) <| .cons (.ldcI4 rfl) <|
    .cons (.refl _) <| .cons (.refl _) <| .cons (.refl _) <| .cons (.refl _) <|
    .cons (.refl _) .nil

/-- In the longest forms the body takes 49 bytes instead of 29, and runs as before. -/
theorem Body.encodings_agree_interval :
    intervalBody.Recodes intervalBodyLong ∧ intervalBodyLong.check = .ok 3 ∧
      intervalBody.size = 29 ∧ intervalBodyLong.size = 49 ∧
      intervalBodyLong.shortest = intervalBody.shortest ∧
      intervalBody.shortest.size ≤ intervalBodyLong.size ∧
      ∃ f, intervalBodyLong.toRoutine = .ok f ∧
        f.run Interval.program #[.array #[.int32 3, .int32 4]] {} =
          intervalRoutine.run Interval.program #[.array #[.int32 3, .int32 4]] {} := by
  obtain ⟨accepted, _, runs, _, same, smallest⟩ := encodings_agree intervalBody_recodes_long
  obtain ⟨f, toRoutine, _, ran⟩ := runs _ (toRoutine_eq_ok check_intervalBody)
  exact ⟨intervalBody_recodes_long, (accepted 3).mp check_intervalBody, rfl, rfl, same, smallest, f,
    toRoutine, ran Interval.program #[.array #[.int32 3, .int32 4]] {}⟩

end MemberAccess.Code
