import MemberAccess.Code.Body

/-!
Listings: a header, the locals, and one line for each instruction with its byte offset.
-/

namespace MemberAccess.Code

/-- At least four digits, lower case. -/
def offsetText (offset : Nat) : String :=
  let digits := Nat.toDigits 16 offset
  "IL_" ++ String.ofList (List.replicate (4 - digits.length) '0' ++ digits)

/-- One line for each instruction, headed by its byte offset. -/
def instrLines (r : Registry) : List Instr → Nat → String → String
  | [], _, out => out
  | i :: rest, offset, out =>
    instrLines r rest (offset + i.size) (out ++ offsetText offset ++ ": " ++ i.text r ++ "\n")

def Body.listing (r : Registry) (b : Body) : String :=
  let head := s!".method {b.name} {b.signature.text}\n"
  let locals :=
    if b.locals.isEmpty then ""
    else ".locals (" ++ ", ".intercalate (b.locals.toList.map r.name) ++ ")\n"
  instrLines r b.code.toList 0 (head ++ locals)

end MemberAccess.Code
