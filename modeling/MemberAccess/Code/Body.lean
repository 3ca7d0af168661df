import MemberAccess.Code.Instr

/-!
Bodies of straight-line code with their signature and their locals.
-/

namespace MemberAccess.Code

inductive ArgumentKind
  /-- One boxed value. -/
  | object
  /-- An array of boxed values. -/
  | objectArray
  deriving DecidableEq

def ArgumentKind.text : ArgumentKind → String
  | object => "object"
  | objectArray => "object[]"

/-- Boxed parameters, and a boxed result or none. -/
structure Signature where
  params : List ArgumentKind
  returnsValue : Bool
  deriving DecidableEq

namespace Signature

def arity (s : Signature) : Nat := s.params.length

def text (s : Signature) : String :=
  let params := ", ".intercalate (s.params.map ArgumentKind.text)
  let result := if s.returnsValue then "object" else "void"
  s!"({params}) -> {result}"

end Signature

structure Body where
  name : String
  signature : Signature
  locals : Array Ty := #[]
  code : Array Instr := #[]

namespace Body

def size (b : Body) : Nat :=
  b.code.foldl (fun n i => n + i.size) 0

def push (b : Body) (i : Instr) : Body :=
  { b with code := b.code.push i }

@[simp] theorem size_push (b : Body) (i : Instr) : (b.push i).size = b.size + i.size := by
  simp [push, size]

end Body

end MemberAccess.Code
