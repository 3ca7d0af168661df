import MemberAccess.Proofs.Assembling
import MemberAccess.Proofs.Compilation

/-!
Compiling is total. A member whose parameters cannot be passed in an array is refused for its first
parameter by reference, or else for their number; every other member has an invoker, so no body is
ever rejected. The figures of its routine follow from the number of parameters alone, and the
indices in its code are the intended ones however many parameters there are.
-/

namespace MemberAccess

namespace Code

/-- The locals that code names, in order. -/
def namedLocals (code : List Instr) : List Nat :=
  (code.filterMap Instr.local?).map Index.toNat

/-- The constants that code loads, in order. -/
def loadedConstants (code : List Instr) : List Int :=
  (code.filterMap Instr.constant?).map (·.toInt32.toInt)

section

variable (front rest : List Instr)

@[simp] theorem namedLocals_append :
    namedLocals (front ++ rest) = namedLocals front ++ namedLocals rest := by
  simp [namedLocals]

@[simp] theorem loadedConstants_append :
    loadedConstants (front ++ rest) = loadedConstants front ++ loadedConstants rest := by
  simp [loadedConstants]

end

namespace Instr

theorem names_loadLocal (i : UInt16) :
    namedLocals [loadLocal i] = [i.toNat] ∧ loadedConstants [loadLocal i] = [] :=
  ⟨congrArg (fun n => [n]) (Index.toNat_select i), rfl⟩

theorem names_storeLocal (i : UInt16) :
    namedLocals [storeLocal i] = [i.toNat] ∧ loadedConstants [storeLocal i] = [] :=
  ⟨congrArg (fun n => [n]) (Index.toNat_select i), rfl⟩

theorem names_loadConstant (n : Int32) :
    namedLocals [loadConstant n] = [] ∧ loadedConstants [loadConstant n] = [n.toInt] :=
  ⟨rfl, congrArg (fun n => [Int32.toInt n]) (Constant.toInt32_select n)⟩

theorem names_coerce (t : Ty) :
    namedLocals [coerce t] = [] ∧ loadedConstants [coerce t] = [] := by
  unfold coerce
  split <;> exact ⟨rfl, rfl⟩

theorem names_boxValue (t : Ty) :
    namedLocals (boxValue t) = [] ∧ loadedConstants (boxValue t) = [] := by
  unfold boxValue
  split <;> exact ⟨rfl, rfl⟩

end Instr

/-- Counts and indices that show in a routine. -/
structure Figures where
  locals : Nat
  maxStack : Nat
  /-- The locals that the code names, in order. -/
  named : List Nat
  /-- The constants that the code loads, in order. -/
  constants : List Int
  deriving DecidableEq

def Routine.figures (f : Routine) : Figures where
  locals := f.body.locals.size
  maxStack := f.maxStack
  named := namedLocals f.body.code.toList
  constants := loadedConstants f.body.code.toList

end Code

open Code

namespace Invoker

/-- Parameters that can be passed in an array. -/
def Passable (params : List Param) : Prop :=
  (∀ q ∈ params, q.byRef = false) ∧ params.length < 65535

/-- The error for parameters that cannot be passed in an array. -/
inductive Refuses (member : String) : List Param → CompileError → Prop
  /-- One parameter by reference is enough, and the first one is named. -/
  | byRef {front : List Param} {q : Param} {rest : List Param}
      (before : ∀ q ∈ front, q.byRef = false) (byRef : q.byRef = true) :
      Refuses member (front ++ q :: rest) (.byRefParameter member q.name)
  | tooMany {params : List Param} (byValue : ∀ q ∈ params, q.byRef = false)
      (many : 65535 ≤ params.length) :
      Refuses member params (.tooManyParameters member params.length)

theorem acceptParams_eq_error_iff (member : String) (params : List Param) (e : CompileError) :
    acceptParams member params = .error e ↔ Refuses member params e := by
  constructor
  · intro refused
    unfold acceptParams at refused
    split at refused
    · next q found =>
      cases refused
      obtain ⟨byRef, front, rest, rfl, before⟩ := List.find?_eq_some_iff_append.mp found
      exact .byRef (fun q mem => by simpa using before q mem) byRef
    · next none =>
      have byValue : ∀ q ∈ params, q.byRef = false := by simpa using none
      split at refused
      · cases refused
      · next many =>
        cases refused
        exact .tooMany byValue (Nat.lt_of_not_le many)
  · intro refuses
    unfold acceptParams
    cases refuses with
    | byRef before byRef =>
      rw [List.find?_eq_some_iff_append.mpr
        ⟨byRef, _, _, rfl, fun q mem => by simp [before q mem]⟩]
    | tooMany byValue many =>
      have none : params.find? Param.byRef = none := by simpa using byValue
      rw [none]
      exact if_neg (Nat.not_le_of_lt many)

theorem acceptParams_eq_ok_iff (member : String) (params : List Param) :
    acceptParams member params = .ok () ↔ Passable params :=
  ⟨of_acceptParams, fun ⟨byValue, few⟩ => acceptParams_eq_ok member byValue few⟩

theorem Refuses.cause?_eq_none {member : String} {params : List Param} {e : CompileError}
    (refuses : Refuses member params e) : e.cause? = none := by
  cases refuses <;> rfl

/-- Compiling gives what `gives` says exactly if the member is `accepted`, and otherwise one of the
errors that `refuses` names, none of which is about a body. -/
structure Decides {α : Type} (compiled : Except CompileError α) (accepted : Prop)
    (refuses : CompileError → Prop) (gives : α → Prop) : Prop where
  accepts : (∃ i, compiled = .ok i) ↔ accepted
  error : ∀ e, compiled = .error e ↔ refuses e
  unrejected : ∀ e, compiled = .error e → e.cause? = none
  ok : ∀ i, compiled = .ok i → gives i

section

variable {α : Type} {compiled : Except CompileError α} {gives : α → Prop}

theorem Decides.of_ok {i : α} (ok : compiled = .ok i) (given : gives i) :
    Decides compiled True (fun _ => False) gives := by
  subst ok
  refine ⟨iff_true_intro ⟨i, rfl⟩, fun e => iff_false_intro nofun, nofun, ?_⟩
  intro j same
  cases same
  exact given

/-- Whether the parameters are accepted is all that can keep a member from being compiled. -/
theorem Decides.of_params {member : String} {params : List Param}
    (refused : ∀ e, acceptParams member params = .error e → compiled = .error e)
    (accepted : Passable params → ∃ i, compiled = .ok i ∧ gives i) :
    Decides compiled (Passable params) (Refuses member params) gives := by
  cases checked : acceptParams member params with
  | ok _ =>
    have passable := (acceptParams_eq_ok_iff member params).mp checked
    obtain ⟨i, rfl, given⟩ := accepted passable
    have none (e : CompileError) : ¬ Refuses member params e := by
      rw [← acceptParams_eq_error_iff, checked]
      nofun
    refine ⟨iff_of_true ⟨i, rfl⟩ passable, fun e => iff_of_false nofun (none e), nofun, ?_⟩
    intro j same
    cases same
    exact given
  | error e =>
    have refuses := (acceptParams_eq_error_iff member params e).mp checked
    have failed := refused e checked
    subst failed
    have impassable : ¬ Passable params := by
      rw [← acceptParams_eq_ok_iff member, checked]
      nofun
    refine ⟨iff_of_false nofun impassable, fun e' => ?_, ?_, nofun⟩
    · rw [← acceptParams_eq_error_iff, checked]
      exact ⟨fun same => by cases same; rfl, fun same => by cases same; rfl⟩
    · intro e' same
      cases same
      exact refuses.cause?_eq_none

end

section Indices

variable (arrayArgument : UInt16) (first : Nat)

theorem names_unpackElement (i : Nat) (q : Param) (bound : first + i < 65536) :
    namedLocals (unpackElement arrayArgument first i q) = [first + i] ∧
      loadedConstants (unpackElement arrayArgument first i q) = [(i : Int)] := by
  have parts : unpackElement arrayArgument first i q =
      [.loadArgument arrayArgument] ++ [.loadConstant (Int32.ofNat i)] ++ [.ldelemRef] ++
        [.coerce q.type] ++ [.storeLocal (UInt16.ofNat (first + i))] := rfl
  have index : (UInt16.ofNat (first + i)).toNat = first + i :=
    toNat_ofNat_index bound (Nat.le_refl _)
  have constant : (Int32.ofNat i).toInt = i := Int32.toInt_ofNat_of_lt (by omega)
  simp only [parts, namedLocals_append, loadedConstants_append, Instr.names_loadConstant,
    Instr.names_coerce, Instr.names_storeLocal, index, constant]
  exact ⟨rfl, rfl⟩

/-- Unpacking stores to consecutive locals: no index wraps around. -/
theorem namedLocals_unpackFrom (i : Nat) (params : List Param)
    (fits : first + i + params.length ≤ 65536) :
    namedLocals (unpackFrom arrayArgument first i params) =
      List.range' (first + i) params.length := by
  induction params generalizing i with
  | nil => rfl
  | cons q rest ih =>
    rw [List.length_cons] at fits
    rw [unpackFrom, namedLocals_append, (names_unpackElement _ _ i q (by omega)).1,
      ih (i + 1) (by omega), List.length_cons, List.range'_succ]
    rfl

theorem loadedConstants_unpackFrom (i : Nat) (params : List Param)
    (fits : first + i + params.length ≤ 65536) :
    loadedConstants (unpackFrom arrayArgument first i params) =
      (List.range' i params.length).map Int.ofNat := by
  induction params generalizing i with
  | nil => rfl
  | cons q rest ih =>
    rw [List.length_cons] at fits
    rw [unpackFrom, loadedConstants_append, (names_unpackElement _ _ i q (by omega)).2,
      ih (i + 1) (by omega), List.length_cons, List.range'_succ]
    rfl

theorem names_unpack (params : List Param) (fits : first + params.length ≤ 65536) :
    namedLocals (unpack arrayArgument first params) = List.range' first params.length ∧
      loadedConstants (unpack arrayArgument first params) =
        (List.range params.length).map Int.ofNat := by
  rw [unpack_eq_unpackFrom, List.range_eq_range']
  exact ⟨namedLocals_unpackFrom _ first 0 params fits,
    loadedConstants_unpackFrom _ first 0 params fits⟩

theorem names_reload (n : Nat) (fits : first + n ≤ 65536) :
    namedLocals (reload first n) = List.range' first n ∧ loadedConstants (reload first n) = [] := by
  induction n with
  | zero => exact ⟨rfl, rfl⟩
  | succ n ih =>
    obtain ⟨named, constants⟩ := ih (Nat.le_of_succ_le fits)
    obtain ⟨last, noConstant⟩ := Instr.names_loadLocal (UInt16.ofNat (first + n))
    have index : (UInt16.ofNat (first + n)).toNat = first + n :=
      toNat_ofNat_index fits (Nat.le_refl _)
    rw [index] at last
    rw [reload_succ, namedLocals_append, loadedConstants_append, named, constants, last, noConstant,
      List.range'_concat, Nat.one_mul]
    exact ⟨rfl, rfl⟩

end Indices

theorem argumentDepth_eq (below n : Nat) :
    argumentDepth below n = max (max (n + below) 1) (if 0 < n then 2 else 0) := by
  unfold argumentDepth
  split <;> split <;> omega

end Invoker

open Invoker

namespace ConstructorInvoker

/-- Every argument is stored to its local and loaded from there once, the new instance goes through
local 0. -/
def figures (c : Constructor) : Figures where
  locals := c.params.length + 1
  maxStack := max (max c.params.length 1) (if 0 < c.params.length then 2 else 0)
  named := List.range' 1 c.params.length ++ List.range' 1 c.params.length ++ [0, 0]
  constants := (List.range c.params.length).map Int.ofNat

theorem names_code {c : Constructor} (few : c.params.length < 65535) :
    namedLocals (code c) =
        List.range' 1 c.params.length ++ List.range' 1 c.params.length ++ [0, 0] ∧
      loadedConstants (code c) = (List.range c.params.length).map Int.ofNat := by
  have fits : 1 + c.params.length ≤ 65536 := by omega
  have staged : namedLocals [.newobj c, .storeLocal 0, .loadLocal 0] = [0, 0] := rfl
  simp only [code, namedLocals_append, loadedConstants_append, names_unpack _ _ _ fits,
    names_reload _ _ fits, Instr.names_boxValue, staged]
  simp [namedLocals, loadedConstants, Instr.storeLocal, Instr.loadLocal]

theorem compile_of_passable (r : Registry) {c : Constructor} (passable : Passable c.params) :
    ∃ i, compile r c = .ok i ∧ (assembly r c).toRoutine = .ok i.routine ∧
      i.routine.figures = figures c := by
  obtain ⟨byValue, few⟩ := passable
  obtain ⟨named, constants⟩ := names_code few
  refine ⟨_, compile_eq_ok r byValue few, ?_, ?_⟩
  · rw [assembly_eq r (Nat.lt_succ_of_lt few)]
    exact Body.toRoutine_eq_ok (check_body r few)
  · simp [Routine.figures, figures, body, named, constants, maxStack, argumentDepth_eq]

end ConstructorInvoker

namespace MethodInvoker

def figures (m : Method) : Figures where
  locals := m.params.length
  maxStack := max (max (m.params.length + if m.isStatic then 0 else 1) 1)
    (if 0 < m.params.length then 2 else 0)
  named := List.range m.params.length ++ List.range m.params.length
  constants := (List.range m.params.length).map Int.ofNat

theorem names_receiver (m : Method) (policy : Policy) :
    namedLocals (receiver m policy) = [] ∧ loadedConstants (receiver m policy) = [] := by
  unfold receiver
  split
  · exact ⟨rfl, rfl⟩
  · cases policy <;> exact ⟨rfl, rfl⟩

theorem names_callMethod (m : Method) :
    namedLocals [.callMethod m] = [] ∧ loadedConstants [.callMethod m] = [] := by
  unfold Instr.callMethod
  split <;> exact ⟨rfl, rfl⟩

theorem names_result (m : Method) :
    namedLocals (result m) = [] ∧ loadedConstants (result m) = [] := by
  unfold result
  split
  · exact ⟨rfl, rfl⟩
  · exact Instr.names_boxValue m.returns

theorem names_code {m : Method} (policy : Policy) (few : m.params.length < 65535) :
    namedLocals (code m policy) = List.range m.params.length ++ List.range m.params.length ∧
      loadedConstants (code m policy) = (List.range m.params.length).map Int.ofNat := by
  have fits : 0 + m.params.length ≤ 65536 := by omega
  simp only [code, namedLocals_append, loadedConstants_append, names_unpack _ _ _ fits,
    names_receiver, names_reload _ _ fits, names_callMethod, names_result]
  simp [namedLocals, loadedConstants, List.range_eq_range']

theorem compile_of_passable (r : Registry) {m : Method} (policy : Policy)
    (passable : Passable m.params) :
    ∃ i, compile r m policy = .ok i ∧ (assembly r m policy).toRoutine = .ok i.routine ∧
      i.routine.figures = figures m := by
  obtain ⟨byValue, few⟩ := passable
  obtain ⟨named, constants⟩ := names_code policy few
  refine ⟨_, compile_eq_ok r policy byValue few, ?_, ?_⟩
  · rw [assembly_eq r policy (Nat.le_of_lt (Nat.lt_succ_of_lt few))]
    exact Body.toRoutine_eq_ok (check_body r policy few)
  · simp [Routine.figures, figures, body, named, constants, maxStack, argumentDepth_eq, receivers]

end MethodInvoker

theorem Field.names_loadReceiver (f : Field) (policy : Policy) :
    namedLocals (f.loadReceiver policy) = [] ∧ loadedConstants (f.loadReceiver policy) = [] := by
  unfold loadReceiver
  split
  · exact ⟨rfl, rfl⟩
  · cases policy <;> exact ⟨rfl, rfl⟩

theorem FieldReader.names_code (f : Field) (policy : Policy) :
    namedLocals (code f policy) = [0, 0] ∧ loadedConstants (code f policy) = [] := by
  have staged : namedLocals [.ldfld f, .storeLocal 0, .loadLocal 0] = [0, 0] := rfl
  simp only [code, namedLocals_append, loadedConstants_append, f.names_loadReceiver,
    Instr.names_boxValue, staged]
  exact ⟨rfl, rfl⟩

theorem FieldWriter.names_code (f : Field) (policy : Policy) :
    namedLocals (code f policy) = [] ∧ loadedConstants (code f policy) = [] := by
  have parts : code f policy =
      f.loadReceiver policy ++ ([.loadArgument 1] ++ [.coerce f.type] ++ [.stfld f, .ret]) := rfl
  simp only [parts, namedLocals_append, loadedConstants_append, f.names_loadReceiver,
    Instr.names_coerce]
  exact ⟨rfl, rfl⟩

/-- Compiling always gives an answer, and never one about a body: a constructor or a method has an
invoker exactly if its parameters can be passed in an array, a field always has a reader and a
writer. What is compiled is what the assembly of the directives gives. -/
theorem compile_total (r : Registry) :
    (∀ c : Constructor,
      Decides (ConstructorInvoker.compile r c) (Passable c.params)
        (Refuses (r.constructorLabel c) c.params) fun i =>
        (ConstructorInvoker.assembly r c).toRoutine = .ok i.routine ∧
        i.routine.figures = ConstructorInvoker.figures c) ∧
    (∀ (m : Method) (policy : Policy),
      Decides (MethodInvoker.compile r m policy) (Passable m.params)
        (Refuses (r.methodLabel m) m.params) fun i =>
        (MethodInvoker.assembly r m policy).toRoutine = .ok i.routine ∧
        i.routine.figures = MethodInvoker.figures m) ∧
    (∀ (f : Field) (policy : Policy),
      Decides (FieldReader.compile r f policy) True (fun _ => False) fun i =>
        (FieldReader.assembly r f policy).toRoutine = .ok i.routine ∧
        i.routine.figures = { locals := 1, maxStack := 1, named := [0, 0], constants := [] }) ∧
    ∀ (f : Field) (policy : Policy),
      Decides (FieldWriter.compile r f policy) True (fun _ => False) fun i =>
        (FieldWriter.assembly r f policy).toRoutine = .ok i.routine ∧
        i.routine.figures = { locals := 0, maxStack := 2, named := [], constants := [] } := by
  refine ⟨fun c => ?constructor, fun m policy => ?method, fun f policy => ?reader,
    fun f policy => ?writer⟩
  case constructor =>
    refine .of_params (fun e refused => ?_) (ConstructorInvoker.compile_of_passable r)
    rw [ConstructorInvoker.compile, refused]
    rfl
  case method =>
    refine .of_params (fun e refused => ?_) (MethodInvoker.compile_of_passable r policy)
    rw [MethodInvoker.compile, refused]
    rfl
  case reader =>
    obtain ⟨named, constants⟩ := FieldReader.names_code f policy
    refine .of_ok (FieldReader.compile_eq_ok r f policy) ⟨?_, ?_⟩
    · rw [FieldReader.assembly_eq]
      exact Body.toRoutine_eq_ok (FieldReader.check_body r f policy)
    · simp [Routine.figures, FieldReader.body, named, constants]
  case writer =>
    obtain ⟨named, constants⟩ := FieldWriter.names_code f policy
    refine .of_ok (FieldWriter.compile_eq_ok r f policy) ⟨?_, ?_⟩
    · rw [FieldWriter.assembly_eq]
      exact Body.toRoutine_eq_ok (FieldWriter.check_body r f policy)
    · simp [Routine.figures, FieldWriter.body, named, constants]

/-- The constructor of a mosaic takes so many tiles. -/
def mosaicOf (n : Nat) : Constructor where
  declaring := .classType 0
  ordinal := 0
  params := List.replicate n { name := "tile", type := .int32 }
  flags := {}

/-- The last constructor that can be compiled, and the first that has too many parameters. -/
theorem compile_total_mosaic :
    (∃ i, ConstructorInvoker.compile {} (mosaicOf 65534) = .ok i ∧
      i.routine.figures.locals = 65535 ∧ i.routine.figures.maxStack = 65534) ∧
    ConstructorInvoker.compile {} (mosaicOf 65535) =
      .error (.tooManyParameters (Registry.constructorLabel {} (mosaicOf 65535)) 65535) := by
  have count (n : Nat) : (mosaicOf n).params.length = n := List.length_replicate
  have byValue (n : Nat) : ∀ q ∈ (mosaicOf n).params, q.byRef = false := by
    intro q mem
    rw [List.eq_of_mem_replicate mem]
  obtain ⟨constructors, _⟩ := compile_total {}
  constructor
  · have passable : Passable (mosaicOf 65534).params := by
      refine ⟨byValue _, ?_⟩
      rw [count]
      exact Nat.lt_succ_self _
    obtain ⟨i, compiled⟩ := (constructors (mosaicOf 65534)).accepts.mpr passable
    obtain ⟨_, figures⟩ := (constructors (mosaicOf 65534)).ok i compiled
    refine ⟨i, compiled, ?_⟩
    rw [figures, ConstructorInvoker.figures, count]
    exact ⟨rfl, rfl⟩
  · have many : 65535 ≤ (mosaicOf 65535).params.length := Nat.le_of_eq (count 65535).symm
    have refuses : Refuses (Registry.constructorLabel {} (mosaicOf 65535)) _ _ :=
      .tooMany (byValue 65535) many
    rw [count] at refuses
    exact ((constructors (mosaicOf 65535)).error _).mpr refuses

end MemberAccess
