import MemberAccess.Run

/-!
Elements of arrays by a signed index.
-/

namespace MemberAccess

def elementAt (items : Array Value) (index : Int32) : Except InvokeError Value :=
  let i := index.toInt
  match (if i < 0 then none else items[i.toNat]?) with
  | some v => .ok v
  | none => .error (.indexOutOfRange i items.size)

namespace ArrayRef

def get (a : ArrayRef) (index : Int32) : RunM Value :=
  fun h => (elementAt (h.items a) index, h)

/-- Overwrites an element and says whether there is one to overwrite. -/
def set (a : ArrayRef) (index : Int32) (v : Value) : RunM Bool :=
  modifyGet fun h =>
    let i := index.toInt
    if 0 ≤ i ∧ i.toNat < (h.items a).size then (true, h.setItem a i.toNat v) else (false, h)

end ArrayRef

end MemberAccess
