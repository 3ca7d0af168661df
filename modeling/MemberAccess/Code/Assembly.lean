import MemberAccess.Code.Check

/-!
Assembling a body from directives that say what the code has to do and leave the choice of the
instruction and its form to the assembly. Misuse is not reported where it happens: the first defect
is kept and given when the body is finalized.
-/

namespace MemberAccess.Code

/-- The instruction that takes a boxed value to the slot of type `t`. -/
def Instr.coerce (t : Ty) : Instr :=
  if t.isValueType then .unboxAny t else .castclass t

namespace Instr

def loadArgument (i : UInt16) : Instr := .ldarg (.select i)
def loadLocal (i : UInt16) : Instr := .ldloc (.select i)
def storeLocal (i : UInt16) : Instr := .stloc (.select i)
def loadConstant (n : Int32) : Instr := .ldcI4 (.select n)

/-- The instructions that take a slot of type `t` to a boxed value; a reference is one already. -/
def boxValue (t : Ty) : List Instr :=
  if t.isValueType then [.box t] else []

/-- Instance methods are called through the runtime type of the receiver. -/
def callMethod (m : Method) : Instr :=
  if m.isStatic then .call m else .callvirt m

end Instr

inductive Directive
  | declareLocals (types : List Ty)
  | loadArgument (i : UInt16)
  | loadConstant (n : Int32)
  | loadLocal (i : UInt16)
  | storeLocal (i : UInt16)
  | loadNull
  | loadElement
  | loadField (f : Field)
  | storeField (f : Field)
  | coerce (t : Ty)
  | castClass (t : Ty)
  | boxIfValueType (t : Ty)
  | call (m : Method)
  | construct (c : Constructor)
  | ret

/-- The instructions of a directive; a declaration has none. -/
def Directive.code : Directive → List Instr
  | declareLocals _ => []
  | loadArgument i => [.loadArgument i]
  | loadConstant n => [.loadConstant n]
  | loadLocal i => [.loadLocal i]
  | storeLocal i => [.storeLocal i]
  | loadNull => [.ldnull]
  | loadElement => [.ldelemRef]
  | loadField f => [.ldfld f]
  | storeField f => [.stfld f]
  | coerce t => [.coerce t]
  | castClass t => [.castclass t]
  | boxIfValueType t => Instr.boxValue t
  | call m => [.callMethod m]
  | construct c => [.newobj c]
  | ret => [.ret]

structure Assembly where
  body : Body
  localsDeclared : Bool := false
  /-- The first defect. -/
  defect? : Option BodyError := none

namespace Assembly

def record (a : Assembly) (e : BodyError) : Assembly :=
  { a with defect? := a.defect?.or (some e) }

/-- Declares locals up to the first one that no index can name. -/
def declareAll (a : Assembly) (types : List Ty) : Assembly :=
  let room := Body.maxLocals - a.body.locals.size
  let body := { a.body with locals := a.body.locals ++ (types.take room).toArray }
  if types.length ≤ room then { a with body := body }
  else { a with body := body }.record (.tooManyLocals (Body.maxLocals + 1))

/-- Locals can be declared once. -/
def declareLocals (a : Assembly) (types : List Ty) : Assembly :=
  if a.localsDeclared then a.record .localsRedeclared
  else declareAll { a with localsDeclared := true } types

def add (a : Assembly) : Directive → Assembly
  | .declareLocals types => a.declareLocals types
  | d => { a with body := d.code.foldl Body.push a.body }

def ofDirectives (name : String) (signature : Signature) (ds : List Directive) : Assembly :=
  ds.foldl add { body := { name := name, signature := signature } }

def toRoutine (a : Assembly) : Except BodyError Routine :=
  match a.defect? with
  | some e => .error e
  | none => a.body.toRoutine

end Assembly

end MemberAccess.Code
