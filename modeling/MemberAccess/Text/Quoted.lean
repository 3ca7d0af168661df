/-!
Quoted text: the quote, the backslash and control characters are escaped, everything else stands
for itself.
-/

namespace MemberAccess.Text

/-- The control characters of both blocks. -/
def isControl (c : Char) : Bool :=
  c.toNat < 0x20 || (0x7f ≤ c.toNat && c.toNat < 0xa0)

def escape (quote c : Char) : String :=
  match c with
  | '\n' => "\\n"
  | '\r' => "\\r"
  | '\t' => "\\t"
  | '\\' => "\\\\"
  | '\x00' => "\\0"
  | c =>
    if c = quote then String.ofList ['\\', c]
    else if isControl c then
      "\\u\x7b" ++ String.ofList (Nat.toDigits 16 c.toNat) ++ "\x7d"
    else c.toString

def quotedString (s : String) : String :=
  "\"" ++ s.foldl (fun out c => out ++ escape '"' c) "" ++ "\""

def quotedChar (c : Char) : String :=
  "'" ++ escape '\'' c ++ "'"

end MemberAccess.Text
