import MemberAccess.Host

/-!
The types every host starts with: a value type of two integers, a class with every kind of member
and one derived from it, a list with an indexer, and a class that cannot be constructed from
outside.
-/

namespace MemberAccess.Prelude

abbrev point : Ty := .structType 0
abbrev sample : Ty := .classType 1
abbrev derivedSample : Ty := .classType 2
abbrev nameList : Ty := .classType 3
abbrev hidden : Ty := .classType 4

/-- What a fresh name list holds. -/
def nameListItems : Array Value := #[.string "Ozcan", .string "Degirmenci"]

/-- A step of a definition; there is none once a step has failed. -/
abbrev Define := StateT Host Option

namespace Define

def internal : Flags := {}
def exposed : Flags := { isPublic := true }
def exposedStatic : Flags := { isPublic := true, isStatic := true }
def exposedVirtual : Flags := { isPublic := true, isVirtual := true }

def start (f : Host → Host × Ty) : Define Ty :=
  fun h => let (h, t) := f h; some (t, h)

def field (t : Ty) (name : String) (type : Ty) (flags : Flags) : Define Field :=
  fun h => (h.addField t name type flags).map fun (h, f) => (f, h)

def constructor (t : Ty) (params : List Param) (flags : Flags)
    (body : Registry → Frame → RunM Unit) : Define Unit :=
  fun h =>
    let body : MemberBody := .native fun r frame => do body r frame; return .null
    (h.addConstructor t params flags body).map fun (h, _) => ((), h)

def method (t : Ty) (name : String) (params : List Param) (returns : Ty) (flags : Flags)
    (body : Registry → Frame → RunM Slot) : Define Method :=
  fun h =>
    (h.addMethod t name params returns flags (.native body)).map fun (h, m) => (m, h)

def property (t : Ty) (name : String) (type : Ty) (index : List Param)
    (getter? setter? : Option Method) : Define Unit :=
  fun h => (h.addProperty t name type index getter? setter?).map fun (h, _) => ((), h)

def finish (t : Ty) : Define Unit :=
  fun h =>
    match h.finish t with
    | some (.ok h) => some ((), h)
    | _ => none

end Define

open Define

def int (name : String) : Param := { name := name, type := .int32 }
def text (name : String) : Param := { name := name, type := .string }

/-- Stores an argument into a field of the receiver. -/
def storeArg (f : Field) (index : Nat) (r : Registry) (frame : Frame) : RunM Unit := do
  f.store r frame.this (← Run.ofExcept (frame.arg index))

def loadInt (f : Field) (r : Registry) (frame : Frame) : RunM Int32 := do
  Run.ofExcept ((← f.load r frame.this).asInt32 r)

def intArg (index : Nat) (r : Registry) (frame : Frame) : Except InvokeError Int32 := do
  (← frame.arg index).asInt32 r

/-- A string argument, empty if it is no string. -/
def textArg (index : Nat) (r : Registry) (frame : Frame) : Except InvokeError String := do
  return ((← (← frame.arg index).asValue r).string?).getD ""

def sum (a b : Int32) : Except InvokeError Int32 :=
  match checkedAdd? a b with
  | some n => .ok n
  | none => .error (.native "arithmetic operation resulted in an overflow")

/-- A body that reads a field of the receiver. -/
def loadField (f : Field) (r : Registry) (frame : Frame) : RunM Slot :=
  f.load r frame.this

/-- A body that stores its first argument into a field of the receiver. -/
def storeField (f : Field) (r : Registry) (frame : Frame) : RunM Slot := do
  storeArg f 0 r frame
  return .null

namespace Point

def sum (x y : Field) (r : Registry) (frame : Frame) : RunM Slot := do
  let a ← loadInt x r frame
  let b ← loadInt y r frame
  return .int32 (← Run.ofExcept (Prelude.sum a b))

/-- A new point; the receiver stays where it is. -/
def translate (x y : Field) (r : Registry) (frame : Frame) : RunM Slot := do
  let a ← loadInt x r frame
  let a ← Run.ofExcept (do Prelude.sum a (← intArg 0 r frame))
  let b ← loadInt y r frame
  let b ← Run.ofExcept (do Prelude.sum b (← intArg 1 r frame))
  let o ← modifyGet fun h => h.alloc point (r.initialSlots point)
  x.store r (.object o) (.int32 a)
  y.store r (.object o) (.int32 b)
  return (← get).copyOut o

def define : Define Unit := do
  let t ← start (·.startStruct "Point")
  let x ← field t "X" .int32 exposed
  let y ← field t "Y" .int32 exposed
  constructor t [int "x", int "y"] exposed fun r frame => do
    storeArg x 0 r frame
    storeArg y 1 r frame
  let _ ← method t "Sum" [] .int32 exposed (sum x y)
  let _ ← method t "Translate" [int "dx", int "dy"] t exposed (translate x y)
  finish t

end Point

namespace Sample

/-- Counts the new instance. -/
def count (instances : Field) (r : Registry) (_ : Frame) : RunM Unit := do
  let n ← Run.ofExcept ((← instances.load r .null).asInt32 r)
  instances.store r .null (.int32 (n + 1))

def increment (r : Registry) (frame : Frame) : RunM Slot := do
  return .int32 (← Run.ofExcept (do sum (← intArg 0 r frame) 1))

def add (r : Registry) (frame : Frame) : RunM Slot := do
  return .int32 (← Run.ofExcept (do sum (← intArg 0 r frame) (← intArg 1 r frame)))

def concat (r : Registry) (frame : Frame) : RunM Slot := do
  let a ← Run.ofExcept (textArg 0 r frame)
  let b ← Run.ofExcept (textArg 1 r frame)
  return .ref (.string (a ++ b))

/-- Five integers with the sixth argument between them. -/
def join (r : Registry) (frame : Frame) : RunM Slot := do
  let separator ← Run.ofExcept (textArg 5 r frame)
  let numbers ← Run.ofExcept ((List.range 5).mapM fun i => intArg i r frame)
  return .ref (.string (separator.intercalate (numbers.map fun n => toString n.toInt)))

def joinParams : List Param := [int "a", int "b", int "c", int "d", int "e", text "separator"]

def describe (number : Field) (r : Registry) (frame : Frame) : RunM Slot := do
  let n ← loadInt number r frame
  return .ref (.string s!"Sample({n.toInt})")

/-- Leaves its mark in a field. -/
def mark (note : Field) (r : Registry) (frame : Frame) : RunM Slot := do
  note.store r frame.this (.ref (.string "Method1"))
  return .null

def define : Define Unit := do
  let t ← start (·.startClass "Sample")
  let number ← field t "Number" .int32 exposed
  let label ← field t "Text" .string exposed
  let secret ← field t "secret" .int32 internal
  let note ← field t "note" .string internal
  let origin ← field t "Origin" point exposed
  let instances ← field t "Instances" .int32 exposedStatic
  let _ ← field t "Greeting" .string exposedStatic
  constructor t [] exposed (count instances)
  constructor t [int "number", text "text"] exposed fun r frame => do
    storeArg number 0 r frame
    storeArg label 1 r frame
  constructor t [int "secret"] internal (storeArg secret 0)
  constructor t
      [int "number", text "text", int "secret", text "note", { name := "origin", type := point }]
      exposed fun r frame => do
    storeArg number 0 r frame
    storeArg label 1 r frame
    storeArg secret 2 r frame
    storeArg note 3 r frame
    storeArg origin 4 r frame
  let _ ← method t "Method1" [] .void exposed (mark note)
  let _ ← method t "Method2" [int "a"] .int32 exposed increment
  let _ ← method t "Concat" [text "a", text "b"] .string exposed concat
  let _ ← method t "Add" [int "a", int "b"] .int32 exposedStatic add
  let _ ← method t "Join" joinParams .string exposed join
  let _ ← method t "Describe" [] .string exposedVirtual (describe number)
  let _ ← method t "Swap"
    [{ name := "a", type := .int32, byRef := true }, { name := "b", type := .int32, byRef := true }]
    .void exposed fun _ _ => return .null
  let _ ← method t "GetOrigin" [] point exposed (loadField origin)
  let _ ← method t "SetOrigin" [{ name := "origin", type := point }] .void exposed
    (storeField origin)
  let _ ← method t "Secret" [] .int32 internal (loadField secret)
  let getName ← method t "get_Name" [] .string exposed (loadField label)
  let setName ← method t "set_Name" [text "value"] .void exposed (storeField label)
  let getId ← method t "get_Id" [] .int32 exposed (loadField number)
  let setNote ← method t "set_Note" [text "value"] .void exposed (storeField note)
  property t "Name" .string [] getName setName
  property t "Id" .int32 [] getId none
  property t "Note" .string [] none setNote
  finish t

end Sample

def DerivedSample.define : Define Unit := do
  let t ← start (·.startDerived "DerivedSample" sample)
  let _ ← field t "Extra" .int64 exposed
  constructor t [] exposed fun _ _ => return ()
  let _ ← method t "Join" Sample.joinParams .string exposed Sample.join
  let _ ← method t "Describe" [] .string exposedVirtual fun _ _ =>
    return .ref (.string "DerivedSample")
  finish t

namespace NameList

def init (items : Field) (r : Registry) (frame : Frame) : RunM Unit := do
  let a ← modifyGet (·.newArray nameListItems)
  items.store r frame.this (.ref (.array a))

def list (items : Field) (r : Registry) (frame : Frame) : RunM ArrayRef := do
  Run.ofExcept ((← items.load r frame.this).asArray r)

def getItem (items : Field) (r : Registry) (frame : Frame) : RunM Slot := do
  let a ← list items r frame
  let index ← Run.ofExcept (intArg 0 r frame)
  return .ref (← a.get index)

def setItem (items : Field) (r : Registry) (frame : Frame) : RunM Slot := do
  let a ← list items r frame
  let index ← Run.ofExcept (intArg 0 r frame)
  let v ← Run.ofExcept (do (← frame.arg 1).asValue r)
  if ← a.set index v then return .null
  else throw (.indexOutOfRange index.toInt ((← get).items a).size)

def count (items : Field) (r : Registry) (frame : Frame) : RunM Slot := do
  let size := ((← get).items (← list items r frame)).size
  if size ≤ Int32.maxValue.toInt then return .int32 (Int32.ofNat size)
  else throw (.native "list is too long")

def define : Define Unit := do
  let t ← start (·.startClass "NameList")
  let items ← field t "items" .array internal
  constructor t [] exposed (init items)
  let getItem ← method t "get_Item" [int "index"] .string exposed (getItem items)
  let setItem ← method t "set_Item" [int "index", text "value"] .void exposed (setItem items)
  let getCount ← method t "get_Count" [] .int32 exposed (count items)
  property t "Item" .string [int "index"] getItem setItem
  property t "Count" .int32 [] getCount none
  finish t

end NameList

def Hidden.define : Define Unit := do
  let t ← start (·.startClass "Hidden")
  constructor t [] internal fun _ _ => return ()
  let _ ← method t "Ping" [] .int32 exposed fun _ _ => return .int32 1
  finish t

def define : Define Unit := do
  Point.define
  Sample.define
  DerivedSample.define
  NameList.define
  Hidden.define

/-- A host with these types and no others. -/
def host : Host :=
  match define {} with
  | some (_, h) => h
  | none => {}

end MemberAccess.Prelude
