import MemberAccess.Code.Instr

/-!
Reading the mnemonics of the instructions whose operand has several forms.
-/

namespace MemberAccess.Code

/-- The index form that belongs to a mnemonic of the family; its operand is given unless the form
is inline. -/
def Index.ofMnemonic? (family mnemonic : String) (operand? : Option Nat) : Option Index :=
  match operand? with
  | some n =>
    if mnemonic = s!"{family}.s" then some (short (UInt8.ofNat n))
    else if mnemonic = family then some (long (UInt16.ofNat n))
    else none
  | none =>
    [0, 1, 2, 3].findSome? fun i => if mnemonic = s!"{family}.{i}" then some (inline i) else none

def Constant.ofMnemonic? (mnemonic : String) (operand? : Option Int) : Option Constant :=
  match operand? with
  | some n =>
    if mnemonic = "ldc.i4.s" then some (short (Int8.ofInt n))
    else if mnemonic = "ldc.i4" then some (long (Int32.ofInt n))
    else none
  | none =>
    if mnemonic = "ldc.i4.m1" then some minusOne
    else
      [0, 1, 2, 3, 4, 5, 6, 7, 8].findSome? fun i =>
        if mnemonic = s!"ldc.i4.{i}" then some (small i) else none

/-- An instruction that is written with a number or with nothing after its mnemonic. -/
def Instr.ofMnemonic? (mnemonic : String) (operand? : Option Int) : Option Instr :=
  match mnemonic, operand? with
  | "ldnull", none => some .ldnull
  | "ldelem.ref", none => some .ldelemRef
  | "pop", none => some .pop
  | "ret", none => some .ret
  | _, _ =>
    let index? (family : String) := Index.ofMnemonic? family mnemonic (operand?.map Int.toNat)
    ((index? "ldarg").map .ldarg).or <| ((index? "ldloc").map .ldloc).or <|
      ((index? "stloc").map .stloc).or <| (Constant.ofMnemonic? mnemonic operand?).map .ldcI4

end MemberAccess.Code
