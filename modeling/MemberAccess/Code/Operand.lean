/-!
Encoded operands. The same index or constant can be written in several forms of different length;
`select` picks the shortest.
-/

namespace MemberAccess.Code

/-- An argument or local index. -/
inductive Index
  /-- Part of the opcode. -/
  | inline (i : Fin 4)
  | short (i : UInt8)
  | long (i : UInt16)
  deriving DecidableEq

namespace Index

def toNat : Index → Nat
  | inline i => i
  | short i => i.toNat
  | long i => i.toNat

/-- Bytes taken by the opcode and the index. -/
def size : Index → Nat
  | inline _ => 1
  | short _ => 2
  | long _ => 4

def select (i : UInt16) : Index :=
  if h : i.toNat < 4 then inline ⟨i.toNat, h⟩
  else if i.toNat < 256 then short i.toUInt8
  else long i

@[simp] theorem toNat_select (i : UInt16) : (select i).toNat = i.toNat := by
  by_cases inline : i.toNat < 4
  · simp [select, inline, toNat]
  · by_cases short : i.toNat < 256
    · simp [select, inline, short, toNat, Nat.mod_eq_of_lt short]
    · simp [select, inline, short, toNat]

/-- No other form of the same index is shorter. -/
theorem size_select_le {i : UInt16} {form : Index} (same : form.toNat = i.toNat) :
    (select i).size ≤ form.size := by
  unfold select
  split
  · cases form <;> simp [size]
  · split
    · cases form with
      | inline j => have := j.isLt; simp only [toNat] at same; omega
      | short j => simp [size]
      | long j => simp [size]
    · cases form with
      | inline j => have := j.isLt; simp only [toNat] at same; omega
      | short j => have := j.toNat_lt; simp only [toNat] at same; omega
      | long j => simp [size]

/-- How the form shows in a mnemonic. -/
def suffix : Index → String
  | inline i => s!".{i.val}"
  | short _ => ".s"
  | long _ => ""

/-- The operand as written after a mnemonic that does not contain it. -/
def operandText : Index → String
  | inline _ => ""
  | short i => s!" {i.toNat}"
  | long i => s!" {i.toNat}"

end Index

/-- An integer constant. -/
inductive Constant
  | minusOne
  | small (n : Fin 9)
  | short (n : Int8)
  | long (n : Int32)
  deriving DecidableEq

namespace Constant

def toInt32 : Constant → Int32
  | minusOne => -1
  | small n => Int32.ofNat n
  | short n => n.toInt32
  | long n => n

def size : Constant → Nat
  | minusOne | small _ => 1
  | short _ => 2
  | long _ => 5

def select (n : Int32) : Constant :=
  let i := n.toInt
  if i = -1 then minusOne
  else if h : 0 ≤ i ∧ i < 9 then small ⟨i.toNat, by omega⟩
  else if -128 ≤ i ∧ i < 128 then short n.toInt8
  else long n

@[simp] theorem toInt32_select (n : Int32) : (select n).toInt32 = n := by
  apply Int32.toInt_inj.mp
  simp only [select]
  split
  · next minus => simpa [toInt32] using minus.symm
  · split
    · next small =>
      have bound : n.toInt.toNat < 2 ^ 31 := by omega
      simp only [toInt32, Int32.toInt_ofNat_of_lt bound]
      omega
    · split
      · next short =>
        simp only [toInt32, Int8.toInt_toInt32, Int32.toInt_toInt8]
        exact Int.bmod_eq_of_le (by omega) (by omega)
      · rfl

/-- No other form of the same constant is shorter. -/
theorem size_select_le {n : Int32} {form : Constant} (same : form.toInt32 = n) :
    (select n).size ≤ form.size := by
  subst same
  simp only [select]
  cases form with
  | minusOne => decide
  | small k =>
    have value : (small k).toInt32.toInt = k := Int32.toInt_ofNat_of_lt (by omega)
    simp only [value]
    split
    · simp [size]
    · rw [dif_pos (by omega)]
      simp [size]
  | short k =>
    have value : (short k).toInt32.toInt = k.toInt := by simp [toInt32]
    have := k.le_toInt
    have := k.toInt_lt
    simp only [value]
    split
    · simp [size]
    · split
      · simp [size]
      · rw [if_pos (by omega)]
        simp [size]
  | long k =>
    split
    · simp [size]
    · split
      · simp [size]
      · split <;> simp [size]

def suffix : Constant → String
  | minusOne => ".m1"
  | small n => s!".{n.val}"
  | short _ => ".s"
  | long _ => ""

def operandText : Constant → String
  | minusOne | small _ => ""
  | short n => s!" {n.toInt}"
  | long n => s!" {n.toInt}"

end Constant

end MemberAccess.Code
