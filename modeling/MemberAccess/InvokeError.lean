/-!
Failures of invoking a member. Reflection and compiled code raise the same ones.
-/

namespace MemberAccess

inductive Accessor
  | getter
  | setter
  deriving DecidableEq

def Accessor.text : Accessor → String
  | getter => "getter"
  | setter => "setter"

inductive InvokeError
  /-- A value cannot be viewed as the expected type. -/
  | invalidCast (expected actual : String)
  /-- Null where an instance or a value is needed. -/
  | nullReference (context : String)
  | argumentCount (member : String) (expected got : Nat)
  | indexOutOfRange (index : Int) (length : Nat)
  | missingAccessor (property : String) (accessor : Accessor)
  /-- Code or an instance is not in the shape that it was checked to have. -/
  | invalidProgram (message : String)
  /-- Raised by the body of a member for reasons of its own. -/
  | native (message : String)
  /-- Member bodies called each other beyond the depth granted to the run. -/
  | tooDeep
  deriving DecidableEq

namespace InvokeError

/-- Whether the error comes from converting a value to a declared type. -/
def isConversion : InvokeError → Bool
  | invalidCast .. | nullReference .. => true
  | _ => false

def message : InvokeError → String
  | invalidCast expected actual => s!"invalid cast: expected {expected}, got {actual}"
  | nullReference context => s!"null reference: {context}"
  | argumentCount member expected got =>
    let arguments := if expected = 1 then "argument" else "arguments"
    s!"{member} expects {expected} {arguments}, got {got}"
  | indexOutOfRange index length => s!"index {index} out of range for length {length}"
  | missingAccessor property accessor => s!"property {property} has no {accessor.text}"
  | invalidProgram message => s!"invalid program: {message}"
  | native message => message
  | tooDeep => "member bodies are nested too deeply"

end InvokeError

end MemberAccess
