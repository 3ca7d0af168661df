import MemberAccess.Invoker.Compile

/-!
Assembling the bodies of invokers. A directive that declares no locals adds its code and nothing
else, so a body whose locals are declared first, and few enough to be named, is assembled without a
defect. The bodies that compiling checks are the ones assembled from the directives below.
-/

namespace MemberAccess

namespace Code

theorem Body.foldl_push (b : Body) (code : List Instr) :
    code.foldl Body.push b = { b with code := b.code ++ code.toArray } := by
  induction code generalizing b with
  | nil => simp
  | cons i rest ih =>
    rw [List.foldl_cons, ih]
    simp [Body.push]

def Directive.declares : Directive → Bool
  | declareLocals _ => true
  | _ => false

namespace Assembly

theorem add_of_not_declares (a : Assembly) {d : Directive} (emits : d.declares = false) :
    a.add d = { a with body := { a.body with code := a.body.code ++ d.code.toArray } } := by
  rw [← Body.foldl_push]
  cases d with
  | declareLocals _ => cases emits
  | _ => rfl

/-- Directives that declare nothing add their code in order. -/
theorem foldl_add (a : Assembly) {ds : List Directive} (emit : ∀ d ∈ ds, d.declares = false) :
    ds.foldl add a =
      { a with body :=
        { a.body with code := a.body.code ++ (ds.flatMap Directive.code).toArray } } := by
  induction ds generalizing a with
  | nil => simp
  | cons d rest ih =>
    rw [List.forall_mem_cons] at emit
    rw [List.foldl_cons, add_of_not_declares a emit.1, ih _ emit.2]
    simp

section

variable (name : String) (signature : Signature) {ds : List Directive}
  (emit : ∀ d ∈ ds, d.declares = false)

include emit

theorem ofDirectives_of_emit :
    ofDirectives name signature ds =
      { body := { name, signature, code := (ds.flatMap Directive.code).toArray } } := by
  rw [ofDirectives, foldl_add _ emit]
  simp

/-- Locals that are declared once and can all be named leave no defect. -/
theorem ofDirectives_declareLocals {types : List Ty} (few : types.length ≤ Body.maxLocals) :
    ofDirectives name signature (.declareLocals types :: ds) =
      { body := { name, signature, locals := types.toArray,
                  code := (ds.flatMap Directive.code).toArray }
        localsDeclared := true } := by
  have declared : add { body := { name, signature } } (.declareLocals types) =
      { body := { name, signature, locals := types.toArray }, localsDeclared := true } := by
    simp [add, declareLocals, declareAll, few, List.take_of_length_le few]
  rw [ofDirectives, List.foldl_cons, declared, foldl_add _ emit]
  simp

end

end Assembly

end Code

open Code

namespace Invoker

/-- Takes the elements of an array argument apart into locals. -/
def unpackDirectives (arrayArgument : UInt16) (firstLocal : Nat) (params : List Param) :
    List Directive :=
  params.zipIdx.flatMap fun (q, i) =>
    [.loadArgument arrayArgument, .loadConstant (Int32.ofNat i), .loadElement, .coerce q.type,
      .storeLocal (UInt16.ofNat (firstLocal + i))]

def reloadDirectives (firstLocal count : Nat) : List Directive :=
  (List.range count).map fun i => .loadLocal (UInt16.ofNat (firstLocal + i))

def castDirectives (policy : Policy) (declaring : Ty) : List Directive :=
  match policy with
  | .checked => [.castClass declaring]
  | .trusted => []

@[simp] theorem code_unpackDirectives (arrayArgument : UInt16) (firstLocal : Nat)
    (params : List Param) :
    (unpackDirectives arrayArgument firstLocal params).flatMap Directive.code =
      unpack arrayArgument firstLocal params := by
  rw [unpackDirectives, List.flatMap_assoc]
  rfl

@[simp] theorem code_reloadDirectives (firstLocal count : Nat) :
    (reloadDirectives firstLocal count).flatMap Directive.code = reload firstLocal count := by
  rw [reloadDirectives, List.flatMap_map, reload, List.map_eq_flatMap]
  rfl

@[simp] theorem code_castDirectives (policy : Policy) (declaring : Ty) :
    (castDirectives policy declaring).flatMap Directive.code = castReceiver policy declaring := by
  cases policy <;> rfl

theorem emit_unpackDirectives (arrayArgument : UInt16) (firstLocal : Nat) (params : List Param) :
    ∀ d ∈ unpackDirectives arrayArgument firstLocal params, d.declares = false := by
  intro d mem
  rw [unpackDirectives, List.mem_flatMap] at mem
  obtain ⟨_, _, mem⟩ := mem
  simp only [List.mem_cons, List.not_mem_nil, or_false] at mem
  obtain rfl | rfl | rfl | rfl | rfl := mem <;> rfl

theorem emit_reloadDirectives (firstLocal count : Nat) :
    ∀ d ∈ reloadDirectives firstLocal count, d.declares = false := by
  intro d mem
  obtain ⟨_, _, rfl⟩ := List.mem_map.mp mem
  rfl

theorem emit_castDirectives (policy : Policy) (declaring : Ty) :
    ∀ d ∈ castDirectives policy declaring, d.declares = false := by
  cases policy <;> simp [castDirectives, Directive.declares]

end Invoker

open Invoker (Kind Policy unpackDirectives reloadDirectives castDirectives emit_unpackDirectives
  emit_reloadDirectives emit_castDirectives)

namespace ConstructorInvoker

def emission (c : Constructor) : List Directive :=
  unpackDirectives 0 1 c.params ++ reloadDirectives 1 c.params.length ++
    [.construct c, .storeLocal 0, .loadLocal 0, .boxIfValueType c.declaring, .ret]

def directives (c : Constructor) : List Directive :=
  .declareLocals (c.declaring :: c.params.map Param.type) :: emission c

def assembly (r : Registry) (c : Constructor) : Assembly :=
  .ofDirectives (body r c).name Kind.constructor.signature (directives c)

theorem assembly_eq (r : Registry) {c : Constructor} (few : c.params.length < 65536) :
    assembly r c = { body := body r c, localsDeclared := true } := by
  have emit : ∀ d ∈ emission c, d.declares = false := by
    simp only [emission, List.forall_mem_append]
    exact ⟨⟨emit_unpackDirectives _ _ _, emit_reloadDirectives _ _⟩, by simp [Directive.declares]⟩
  have coded : (emission c).flatMap Directive.code = code c := by
    simp [emission, code, Directive.code]
  have room : (c.declaring :: c.params.map Param.type).length ≤ Body.maxLocals := by
    rw [List.length_cons, List.length_map]
    exact few
  rw [assembly, directives, Assembly.ofDirectives_declareLocals _ _ emit room, coded]
  rfl

end ConstructorInvoker

namespace MethodInvoker

def receiverDirectives (m : Method) (policy : Policy) : List Directive :=
  if m.isStatic then [] else .loadArgument 0 :: castDirectives policy m.declaring

def resultDirective (m : Method) : Directive :=
  if m.returns.isVoid then .loadNull else .boxIfValueType m.returns

def emission (m : Method) (policy : Policy) : List Directive :=
  unpackDirectives 1 0 m.params ++ receiverDirectives m policy ++
    reloadDirectives 0 m.params.length ++ [.call m, resultDirective m, .ret]

def directives (m : Method) (policy : Policy) : List Directive :=
  .declareLocals (m.params.map Param.type) :: emission m policy

def assembly (r : Registry) (m : Method) (policy : Policy) : Assembly :=
  .ofDirectives (body r m policy).name Kind.method.signature (directives m policy)

theorem code_receiverDirectives (m : Method) (policy : Policy) :
    (receiverDirectives m policy).flatMap Directive.code = receiver m policy := by
  unfold receiverDirectives receiver
  split
  · rfl
  · simp [Directive.code]

theorem code_resultDirective (m : Method) : (resultDirective m).code = result m := by
  unfold resultDirective result
  split <;> rfl

theorem emit_receiverDirectives (m : Method) (policy : Policy) :
    ∀ d ∈ receiverDirectives m policy, d.declares = false := by
  unfold receiverDirectives
  split
  · simp
  · rw [List.forall_mem_cons]
    exact ⟨rfl, emit_castDirectives _ _⟩

theorem declares_resultDirective (m : Method) : (resultDirective m).declares = false := by
  unfold resultDirective
  split <;> rfl

theorem assembly_eq (r : Registry) {m : Method} (policy : Policy) (few : m.params.length ≤ 65536) :
    assembly r m policy = { body := body r m policy, localsDeclared := true } := by
  have emit : ∀ d ∈ emission m policy, d.declares = false := by
    simp only [emission, List.forall_mem_append, List.forall_mem_cons]
    exact ⟨⟨⟨emit_unpackDirectives _ _ _, emit_receiverDirectives _ _⟩,
      emit_reloadDirectives _ _⟩, rfl, declares_resultDirective m, rfl, List.forall_mem_nil _⟩
  have coded : (emission m policy).flatMap Directive.code = code m policy := by
    simp [emission, code, code_receiverDirectives, ← code_resultDirective, Directive.code]
  have room : (m.params.map Param.type).length ≤ Body.maxLocals := by
    rw [List.length_map]
    exact few
  rw [assembly, directives, Assembly.ofDirectives_declareLocals _ _ emit room, coded]
  rfl

end MethodInvoker

namespace Field

def receiverDirectives (f : Field) (policy : Policy) : List Directive :=
  .loadArgument 0 :: if f.isStatic then [] else castDirectives policy f.declaring

theorem code_receiverDirectives (f : Field) (policy : Policy) :
    (f.receiverDirectives policy).flatMap Directive.code = f.loadReceiver policy := by
  unfold receiverDirectives loadReceiver
  split <;> simp [Directive.code]

theorem emit_receiverDirectives (f : Field) (policy : Policy) :
    ∀ d ∈ f.receiverDirectives policy, d.declares = false := by
  unfold receiverDirectives
  rw [List.forall_mem_cons]
  split
  · simp [Directive.declares]
  · exact ⟨rfl, emit_castDirectives _ _⟩

end Field

namespace FieldReader

def emission (f : Field) (policy : Policy) : List Directive :=
  f.receiverDirectives policy ++
    [.loadField f, .storeLocal 0, .loadLocal 0, .boxIfValueType f.type, .ret]

def directives (f : Field) (policy : Policy) : List Directive :=
  .declareLocals [f.type] :: emission f policy

def assembly (r : Registry) (f : Field) (policy : Policy) : Assembly :=
  .ofDirectives (body r f policy).name Kind.fieldReader.signature (directives f policy)

theorem assembly_eq (r : Registry) (f : Field) (policy : Policy) :
    assembly r f policy = { body := body r f policy, localsDeclared := true } := by
  have emit : ∀ d ∈ emission f policy, d.declares = false := by
    simp only [emission, List.forall_mem_append]
    exact ⟨f.emit_receiverDirectives policy, by simp [Directive.declares]⟩
  have coded : (emission f policy).flatMap Directive.code = code f policy := by
    simp [emission, code, f.code_receiverDirectives, Directive.code]
  have room : [f.type].length ≤ Body.maxLocals := Nat.le_add_left 1 _
  rw [assembly, directives, Assembly.ofDirectives_declareLocals _ _ emit room, coded]
  rfl

end FieldReader

namespace FieldWriter

/-- A writer declares no locals. -/
def directives (f : Field) (policy : Policy) : List Directive :=
  f.receiverDirectives policy ++ [.loadArgument 1, .coerce f.type, .storeField f, .ret]

def assembly (r : Registry) (f : Field) (policy : Policy) : Assembly :=
  .ofDirectives (body r f policy).name Kind.fieldWriter.signature (directives f policy)

theorem assembly_eq (r : Registry) (f : Field) (policy : Policy) :
    assembly r f policy = { body := body r f policy } := by
  have emit : ∀ d ∈ directives f policy, d.declares = false := by
    simp only [directives, List.forall_mem_append]
    exact ⟨f.emit_receiverDirectives policy, by simp [Directive.declares]⟩
  have coded : (directives f policy).flatMap Directive.code = code f policy := by
    simp [directives, code, f.code_receiverDirectives, Directive.code]
  rw [assembly, Assembly.ofDirectives_of_emit _ _ emit, coded]
  rfl

end FieldWriter

end MemberAccess
