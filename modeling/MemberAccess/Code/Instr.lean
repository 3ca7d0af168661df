import MemberAccess.Code.Operand
import MemberAccess.Registry

/-!
Instructions of the stack machine: their text, their encoded length, and how many stack entries
they take and leave.
-/

namespace MemberAccess.Code

inductive Instr
  | ldarg (i : Index)
  | ldloc (i : Index)
  | stloc (i : Index)
  | ldcI4 (n : Constant)
  | ldnull
  /-- Takes an index and an array, leaves the element. -/
  | ldelemRef
  /-- Takes a receiver, leaves the value of the field. -/
  | ldfld (f : Field)
  /-- Takes a value and a receiver. -/
  | stfld (f : Field)
  /-- Takes the arguments, leaves the new instance. -/
  | newobj (c : Constructor)
  | call (m : Method)
  /-- Calls through the runtime type of the receiver. -/
  | callvirt (m : Method)
  | box (t : Ty)
  | unboxAny (t : Ty)
  | castclass (t : Ty)
  | pop
  | ret
  deriving DecidableEq

namespace Instr

@[simp] def argument? : Instr → Option Index
  | ldarg i => some i
  | _ => none

@[simp] def local? : Instr → Option Index
  | ldloc i | stloc i => some i
  | _ => none

@[simp] def constant? : Instr → Option Constant
  | ldcI4 n => some n
  | _ => none

/-- Bytes of the encoded instruction. -/
def size : Instr → Nat
  | ldarg i | ldloc i | stloc i => i.size
  | ldcI4 n => n.size
  | ldfld _ | stfld _ | newobj _ | call _ | callvirt _ | box _ | unboxAny _ | castclass _ => 5
  | ldnull | ldelemRef | pop | ret => 1

def mnemonic : Instr → String
  | ldarg i => s!"ldarg{i.suffix}"
  | ldloc i => s!"ldloc{i.suffix}"
  | stloc i => s!"stloc{i.suffix}"
  | ldcI4 n => s!"ldc.i4{n.suffix}"
  | ldnull => "ldnull"
  | ldelemRef => "ldelem.ref"
  | ldfld _ => "ldfld"
  | stfld _ => "stfld"
  | newobj _ => "newobj"
  | call _ => "call"
  | callvirt _ => "callvirt"
  | box _ => "box"
  | unboxAny _ => "unbox.any"
  | castclass _ => "castclass"
  | pop => "pop"
  | ret => "ret"

def operandText (r : Registry) : Instr → String
  | ldarg i | ldloc i | stloc i => i.operandText
  | ldcI4 n => n.operandText
  | ldfld f | stfld f => s!" {r.name f.type} {r.fieldLabel f}"
  | newobj c => s!" {r.constructorLabel c}"
  | call m | callvirt m => s!" {r.name m.returns} {r.methodLabel m}"
  | box t | unboxAny t | castclass t => s!" {r.name t}"
  | ldnull | ldelemRef | pop | ret => ""

def text (r : Registry) (i : Instr) : String :=
  i.mnemonic ++ i.operandText r

/-- Stack entries taken. What `ret` takes depends on the signature of the body it ends. -/
def pops : Instr → Nat
  | ldarg _ | ldloc _ | ldcI4 _ | ldnull | ret => 0
  | stloc _ | pop | ldfld _ | box _ | unboxAny _ | castclass _ => 1
  | ldelemRef | stfld _ => 2
  | newobj c => c.params.length
  | call m | callvirt m => m.params.length + if m.isStatic then 0 else 1

/-- Stack entries left. -/
def pushes : Instr → Nat
  | stloc _ | pop | stfld _ | ret => 0
  | call m | callvirt m => if m.returns.isVoid then 0 else 1
  | _ => 1

end Instr

end MemberAccess.Code
