import MemberAccess.Facade
import MemberAccess.Text.Quoted
import MemberAccess.Text.Shortest

/-!
Texts for looking into values, members, routines and façades.
-/

namespace MemberAccess

open Code (Routine Body Signature ArgumentKind)

/-- Digits of a decimal in positional notation, with a point and a digit on either side of it. -/
def Text.Decimal.positional (d : Text.Decimal) : String :=
  let zeros (n : Int) := List.replicate n.toNat '0'
  if d.point ≤ 0 then "0." ++ String.ofList (zeros (-d.point) ++ d.digits)
  else
    let whole := d.digits.take d.point.toNat ++ zeros (d.point - d.digits.length)
    let places := d.digits.drop d.point.toNat
    String.ofList whole ++ "." ++ (if places.isEmpty then "0" else String.ofList places)

/-- One digit before the point, which is left out if nothing follows it. -/
def Text.Decimal.scientific (d : Text.Decimal) : String :=
  let places := d.digits.drop 1
  let point := if places.isEmpty then "" else "." ++ String.ofList places
  String.ofList (d.digits.take 1) ++ point ++ s!"e{d.point - 1}"

/-- The shortest decimal of a float: positional from 0.0001 up to below 10 ^ 16. -/
def inspectFloat (x : Float) : String :=
  if x.isNaN then "NaN"
  else
    let sign := if x.toBits >>> 63 = 1 then "-" else ""
    if x.isInf then sign ++ "inf"
    else if x == 0.0 then sign ++ "0.0"
    else
      let d := Text.shortest x
      sign ++ (if -4 < d.point ∧ d.point ≤ 16 then d.positional else d.scientific)

def inspectList (items : List String) : String :=
  "[" ++ ", ".intercalate items ++ "]"

/-- A type name and its named parts. -/
def inspectFields (name : String) (fields : List (String × String)) : String :=
  let parts := fields.map fun (field, value) => s!"{field}: {value}"
  name ++ " \x7b " ++ ", ".intercalate parts ++ " \x7d"

def inspectOption : Option String → String
  | none => "None"
  | some s => s!"Some({s})"

namespace Registry

def inspectType (r : Registry) (t : Ty) : String :=
  s!"TypeInfo({r.name t})"

def inspectField (r : Registry) (f : Field) : String :=
  s!"FieldInfo({r.fieldLabel f}: {r.name f.type})"

def inspectMethod (r : Registry) (m : Method) : String :=
  let params := m.params.map fun p => (if p.byRef then "ref " else "") ++ r.name p.type
  let params := ", ".intercalate params
  s!"MethodInfo({r.methodLabel m}({params}) -> {r.name m.returns})"

def inspectConstructor (r : Registry) (c : Constructor) : String :=
  s!"ConstructorInfo({r.constructorLabel c}/{c.params.length})"

def inspectProperty (r : Registry) (q : Property) : String :=
  s!"PropertyInfo({r.propertyLabel q}: {r.name q.type})"

end Registry

/-- Objects and arrays are not opened. -/
def Value.inspect (r : Registry) (h : Heap) : Value → String
  | null => "null"
  | bool b => toString b
  | int32 n => s!"{n.toInt}i32"
  | int64 n => s!"{n.toInt}i64"
  | float64 x => s!"{inspectFloat x}f64"
  | char c => Text.quotedChar c
  | string s => Text.quotedString s
  | array a => s!"Object[{(h.items a).size}]"
  | object o => r.name o.type ++ "\x7b..\x7d"

namespace Slot

mutual

def inspect (r : Registry) (h : Heap) : Slot → String
  | bool b => s!"Bool({b})"
  | int32 n => s!"Int32({n.toInt})"
  | int64 n => s!"Int64({n.toInt})"
  | float64 x => s!"Float64({inspectFloat x})"
  | char c => s!"Char({Text.quotedChar c})"
  | struct t fields =>
    let parts := [("ty", r.inspectType t), ("fields", inspectList (inspectAll r h fields))]
    let contents := inspectFields "StructValue" parts
    s!"Struct({contents})"
  | ref v => s!"Ref({v.inspect r h})"

def inspectAll (r : Registry) (h : Heap) : List Slot → List String
  | [] => []
  | s :: rest => inspect r h s :: inspectAll r h rest

end

end Slot

/-- The contents of an object or array; other values as such. -/
def Value.inspectOpen (r : Registry) (h : Heap) : Value → String
  | .array a => inspectList ((h.items a).toList.map (·.inspect r h))
  | .object o =>
    inspectFields (r.name o.type) [("fields", inspectList (Slot.inspectAll r h (h.slots o)))]
  | v => v.inspect r h

def Code.ArgumentKind.inspect : ArgumentKind → String
  | .object => "Object"
  | .objectArray => "ObjectArray"

def Code.Signature.inspect (s : Signature) : String :=
  inspectFields "ThunkSignature"
    [("params", inspectList (s.params.map ArgumentKind.inspect)),
      ("returns_value", toString s.returnsValue)]

/-- A body that is still being built, by the sizes of its parts. -/
def Code.Body.inspect (b : Body) : String :=
  inspectFields "MethodBuilder"
    [("name", Text.quotedString b.name), ("signature", b.signature.inspect),
      ("locals", toString b.locals.size), ("code", toString b.code.size)]

def Code.Routine.inspect (r : Registry) (f : Routine) : String :=
  let parts := [("name", Text.quotedString f.name), ("signature", f.signature.inspect),
    ("locals", inspectList (f.body.locals.toList.map r.inspectType)),
    ("code_size", toString f.size), ("max_stack", toString f.maxStack)]
  let parts := parts.map fun (field, value) => s!"{field}: {value}"
  "CompiledBody \x7b " ++ ", ".intercalate parts ++ ", .. \x7d"

def ConstructorInvoker.inspect (r : Registry) (i : ConstructorInvoker) : String :=
  inspectFields "ConstructorThunk"
    [("ctor", r.inspectConstructor i.constructor), ("body", i.routine.inspect r)]

def MethodInvoker.inspect (r : Registry) (i : MethodInvoker) : String :=
  inspectFields "MethodThunk"
    [("method", r.inspectMethod i.method), ("body", i.routine.inspect r)]

def FieldReader.inspect (r : Registry) (i : FieldReader) : String :=
  inspectFields "FieldGetter" [("field", r.inspectField i.field), ("body", i.routine.inspect r)]

def FieldWriter.inspect (r : Registry) (i : FieldWriter) : String :=
  inspectFields "FieldSetter" [("field", r.inspectField i.field), ("body", i.routine.inspect r)]

def ConstructorFacade.inspect (r : Registry) (x : ConstructorFacade) : String :=
  inspectFields "ConstructorProxy" [("thunk", x.invoker.inspect r)]

def MethodFacade.inspect (r : Registry) (x : MethodFacade) : String :=
  inspectFields "MethodProxy" [("thunk", x.invoker.inspect r)]

def FieldFacade.inspect (r : Registry) (x : FieldFacade) : String :=
  inspectFields "FieldProxy" [("getter", x.getter.inspect r), ("setter", x.setter.inspect r)]

def PropertyFacade.inspect (r : Registry) (x : PropertyFacade) : String :=
  let accessor (m? : Option MethodFacade) := inspectOption (m?.map (·.inspect r))
  inspectFields "PropertyProxy"
    [("property", r.inspectProperty x.property), ("getter", accessor x.getter?),
      ("setter", accessor x.setter?)]

end MemberAccess
