import Std.Data.TreeMap.Basic

/-!
Positions by name. A list of named things is searched often and changed never, so its names are
indexed once: either to the first position of each name or to all of them in order.
-/

namespace MemberAccess

open Std (TreeMap)

/-- The first position of every name. -/
def firstPositions (names : List String) : TreeMap String Nat :=
  names.zipIdx.foldl (fun index (name, i) => index.insertIfNew name i) ∅

/-- Every position of every name, ascending. -/
def allPositions (names : List String) : TreeMap String (List Nat) :=
  names.zipIdx.foldl (fun index (name, i) => index.alter name fun ps => some (ps.getD [] ++ [i])) ∅

end MemberAccess
