import MemberAccess.Prelude
import MemberAccess.Proofs.Accessors
import MemberAccess.Proofs.ConversionCode
import MemberAccess.Proofs.Hosts

/-!
Name lists through their façades. Whatever types are defined besides, the indexer of a list is an
array of texts with checked bounds: an access that fails leaves the array as it is, and an element
is the text that was put there last.
-/

namespace MemberAccess

open Invoker

namespace ArrayRef

variable {a : ArrayRef} {h : Heap} {n : Int32}

theorem set_inside {i : Nat} (position : n.toInt = i) (bound : i < (h.items a).size) (v : Value) :
    a.set n v h = (.ok true, h.setItem a i v) := by
  have there : 0 ≤ (i : Int) ∧ i < (h.items a).size := ⟨Int.natCast_nonneg i, bound⟩
  simp only [set, Run.modifyGet_apply, position, Int.toNat_natCast, if_pos there]

theorem set_outside (outside : n.toInt < 0 ∨ (h.items a).size ≤ n.toInt) (v : Value) :
    a.set n v h = (.ok false, h) := by
  have missing : ¬ (0 ≤ n.toInt ∧ n.toInt.toNat < (h.items a).size) := by omega
  simp only [set, Run.modifyGet_apply, if_neg missing]

end ArrayRef

namespace Value

/-- What a cast to `String` lets through: null, a string, or an object whose type is `String` or
derives from it. -/
inductive IsText (r : Registry) : Value → Prop
  | null : IsText r .null
  | string (s : String) : IsText r (.string s)
  | object {o : ObjectRef} (derives : r.assignable .string o.type = true) : IsText r (.object o)

variable {r : Registry} {v : Value}

theorem isText_iff_passes : v.IsText r ↔ v.passes r .string = true := by
  constructor
  · rintro (_ | s | derives)
    · rfl
    · rfl
    · exact derives
  · intro passes
    cases v with
    | null => exact .null
    | string s => exact .string s
    | object o => exact .object passes
    | _ => cases passes

instance (r : Registry) (v : Value) : Decidable (v.IsText r) :=
  decidable_of_iff _ isText_iff_passes.symm

theorem unbox_string_of_isText (text : v.IsText r) : v.unbox r .string = pure (.ref v) := by
  show Run.ofExcept ((v.cast r .string).map Slot.ref) = _
  rw [cast_of_passes (isText_iff_passes.mp text)]
  rfl

theorem unbox_string_of_not_isText (stuck : ¬ v.IsText r) :
    v.unbox r .string = throw (.invalidCast "String" (v.typeName r)) := by
  rw [isText_iff_passes, Bool.not_eq_true] at stuck
  show Run.ofExcept ((v.cast r .string).map Slot.ref) = _
  rw [cast_of_not_passes stuck]
  rfl

theorem unbox_int32 (r : Registry) (n : Int32) : (int32 n).unbox r .int32 = pure (.int32 n) := rfl

theorem unbox_int32_of_ne (mistyped : ∀ n, v ≠ .int32 n) :
    v.unbox r .int32 = throw (v.unboxError r .int32) := by
  cases v with
  | int32 n => exact absurd rfl (mistyped n)
  | _ => rfl

theorem isConversion_unboxError (r : Registry) (v : Value) (t : Ty) :
    (v.unboxError r t).isConversion = true := by
  cases v <;> rfl

end Value

namespace PropertyFacade

/-- What may stand where one position is asked for. -/
inductive IndexList : Array Value → Prop
  | position (n : Int32) : IndexList #[.int32 n]
  | mistyped {u : Value} (mistyped : ∀ n, u ≠ .int32 n) : IndexList #[u]
  | miscounted {index : Array Value} (size : index.size ≠ 1) : IndexList index

theorem indexList (index : Array Value) : IndexList index := by
  by_cases size : index.size = 1
  · obtain ⟨u, rfl⟩ := Array.size_eq_one_iff.mp size
    cases u with
    | int32 n => exact .position n
    | _ => exact .mistyped nofun
  · exact .miscounted size

/-- One use of an indexer. -/
inductive Access
  | get (index : Array Value)
  | set (index : Array Value) (value : Value)

namespace Access

/-- The store that an access leaves, whether it fails or not. -/
def after (p : Program) (x : PropertyFacade) (target : Value) (access : Access) (h : Heap) : Heap :=
  match access with
  | get index => (x.read p target index h).2
  | set index value => (x.write p target value index h).2

def afterAll (p : Program) (x : PropertyFacade) (target : Value) (accesses : List Access)
    (h : Heap) : Heap :=
  accesses.foldl (fun h access => access.after p x target h) h

/-- The text that an access puts at position `i`, provided that there is such a position. -/
def put? (r : Registry) (i : Nat) : Access → Option Value
  | set ⟨[.int32 n]⟩ value => if n.toInt = i ∧ value.IsText r then some value else none
  | _ => none

/-- The text that was put at position `i` last. -/
def latest? (r : Registry) (i : Nat) (accesses : List Access) : Option Value :=
  accesses.reverse.findSome? (put? r i)

variable {r : Registry} {i : Nat} {v : Value}

theorem put?_eq_some {access : Access} :
    access.put? r i = some v ↔
      ∃ n : Int32, access = set #[.int32 n] v ∧ n.toInt = i ∧ v.IsText r := by
  constructor
  · intro put
    unfold put? at put
    split at put
    · next n value =>
      obtain ⟨⟨position, text⟩, put⟩ := Option.ite_none_right_eq_some.mp put
      cases put
      exact ⟨n, rfl, position, text⟩
    · cases put
  · rintro ⟨n, rfl, position, text⟩
    exact if_pos ⟨position, text⟩

theorem put?_of_isText {n : Int32} (position : n.toInt = i) (text : v.IsText r) (j : Nat) :
    (set #[.int32 n] v).put? r j = if i = j then some v else none := by
  simp only [put?, position, text, and_true, Int.natCast_inj]

theorem latest?_cons (access : Access) (later : List Access) :
    latest? r i (access :: later) = (latest? r i later).or (access.put? r i) := by
  rw [latest?, List.reverse_cons, List.findSome?_append, List.findSome?_singleton, latest?]

theorem isText_of_latest? {accesses : List Access} (put : latest? r i accesses = some v) :
    v.IsText r := by
  obtain ⟨access, _, put⟩ := List.exists_of_findSome?_eq_some put
  obtain ⟨_, _, _, text⟩ := put?_eq_some.mp put
  exact text

end Access

end PropertyFacade

namespace Prelude.NameList

open Define PropertyFacade

def itemsField : Field := ⟨nameList, 0, "items", .array, false, false, .slot 0⟩

def itemGetter : Method := ⟨nameList, 0, "get_Item", [int "index"], .string, exposed⟩

def itemSetter : Method :=
  ⟨nameList, 1, "set_Item", [int "index", text "value"], .void, exposed⟩

def countGetter : Method := ⟨nameList, 2, "get_Count", [], .int32, exposed⟩

def itemProperty : Property :=
  ⟨nameList, 0, "Item", .string, [int "index"], some itemGetter, some itemSetter⟩

def countProperty : Property := ⟨nameList, 1, "Count", .int32, [], some countGetter, none⟩

theorem isFinished_nameList : host.registry.isFinished nameList = true := rfl

set_option maxRecDepth 4096 in
theorem aligned_host : host.Aligned := rfl

set_option maxRecDepth 8192 in
theorem methods_nameList : (host.bodiesOf nameList).methods =
    #[.native (getItem itemsField), .native (setItem itemsField), .native (count itemsField)] := rfl

theorem lookups_of_reaches {h : Host} (reached : host.Reaches h) :
    h.registry.field? nameList "items" = some itemsField ∧
      h.registry.property? nameList "Item" = some itemProperty ∧
      h.registry.property? nameList "Count" = some countProperty := by
  obtain ⟨_, grows, _⟩ := reached.grows aligned_host
  refine ⟨grows.search isFinished_nameList ?_, grows.search isFinished_nameList ?_,
    grows.search isFinished_nameList ?_⟩ <;> rfl

theorem exists_facades (r : Registry) (policy : Policy) :
    ∃ item counter, ofProperty r itemProperty policy = .ok item ∧
      ofProperty r countProperty policy = .ok counter := by
  have byItem : ∀ m ∈ itemProperty.accessors, Passable m.params := by
    unfold Passable
    decide
  have byCount : ∀ m ∈ countProperty.accessors, Passable m.params := by
    unfold Passable
    decide
  obtain ⟨item, itemMade⟩ := exists_of_passable r policy byItem
  obtain ⟨counter, countMade⟩ := exists_of_passable r policy byCount
  exact ⟨item, counter, itemMade, countMade⟩

/-- Whether a program has name lists, under their name and with the bodies of their accessors. -/
structure Provided (p : Program) : Prop where
  name : p.registry.name nameList = "NameList"
  getItem : p.bodies.method itemGetter = getItem itemsField p.registry
  setItem : p.bodies.method itemSetter = setItem itemsField p.registry
  count : p.bodies.method countGetter = count itemsField p.registry

theorem Provided.methodLabel {p : Program} (provided : Provided p) {m : Method}
    (own : m.declaring = nameList) : p.registry.methodLabel m = "NameList" ++ "::" ++ m.name := by
  rw [Registry.methodLabel, own, provided.name]
  rfl

theorem provided_of_reaches {h : Host} (reached : host.Reaches h) (depth : Nat) :
    Provided (h.program (depth + 1)) := by
  obtain ⟨_, grows⟩ := reached.grows aligned_host
  have bodies := grows.bodiesOf nameList isFinished_nameList
  have methods : (h.bodiesOf nameList).methods = _ :=
    (congrArg TypeBodies.methods bodies).trans methods_nameList
  have body (m : Method) (own : m.declaring = nameList) :
      (h.program (depth + 1)).bodies.method m = fun frame =>
        (Host.bodyOf (h.bodiesOf nameList).methods[m.ordinal]?).run (h.program depth) frame := by
    rw [← own]
    rfl
  refine ⟨grows.registry.name rfl, ?_, ?_, ?_⟩
  · rw [body itemGetter rfl, methods]
    rfl
  · rw [body itemSetter rfl, methods]
    rfl
  · rw [body countGetter rfl, methods]
    rfl

/-- Whether `list` is a name list with its items in the array `a`. -/
def Holds (r : Registry) (list : Value) (a : ArrayRef) (h : Heap) : Prop :=
  itemsField.load r list h = (.ok (.ref (.array a)), h)

namespace Holds

variable {r : Registry} {list : Value} {a : ArrayRef} {h : Heap} (holds : Holds r list a h)

include holds

theorem exists_object : ∃ o, list = .object o ∧ r.assignable nameList o.type = true ∧
    h.load? o 0 = some (.ref (.array a)) := by
  obtain ⟨o, received, held⟩ := Field.of_load_slot rfl holds
  obtain ⟨same, accepts⟩ := Field.of_receiver_eq_ok received
  exact ⟨o, same, accepts, held⟩

theorem setItem (b : ArrayRef) (i : Nat) (v : Value) : Holds r list a (h.setItem b i v) := by
  obtain ⟨o, rfl, accepts, held⟩ := holds.exists_object
  exact Field.load_of_held rfl accepts held

theorem list_apply (args : Array Slot) :
    NameList.list itemsField r ⟨list, args⟩ h = (.ok a, h) := by
  rw [NameList.list, Run.bind_apply, holds]
  rfl

theorem getItem_apply (n : Int32) :
    NameList.getItem itemsField r ⟨list, #[.int32 n]⟩ h =
      ((elementAt (h.items a) n).map .ref, h) := by
  have index : intArg 0 r ⟨list, #[.int32 n]⟩ = .ok n := rfl
  have got : a.get n h = (elementAt (h.items a) n, h) := rfl
  simp only [NameList.getItem, Run.bind_apply, holds.list_apply, index, Run.ofExcept_apply, got]
  cases elementAt (h.items a) n <;> rfl

theorem setItem_eq (n : Int32) (v : Value) :
    NameList.setItem itemsField r ⟨list, #[.int32 n, .ref v]⟩ h = (do
      if ← a.set n v then return Slot.null
      else throw (InvokeError.indexOutOfRange n.toInt ((← get).items a).size) : RunM Slot) h := by
  rw [NameList.setItem, Run.bind_apply, holds.list_apply]
  rfl

theorem setItem_inside {n : Int32} {i : Nat} (position : n.toInt = i)
    (bound : i < (h.items a).size) (v : Value) :
    NameList.setItem itemsField r ⟨list, #[.int32 n, .ref v]⟩ h =
      (.ok .null, h.setItem a i v) := by
  rw [holds.setItem_eq, Run.bind_apply, ArrayRef.set_inside position bound]
  rfl

theorem setItem_outside {n : Int32} (outside : n.toInt < 0 ∨ (h.items a).size ≤ n.toInt)
    (v : Value) :
    NameList.setItem itemsField r ⟨list, #[.int32 n, .ref v]⟩ h =
      (.error (.indexOutOfRange n.toInt (h.items a).size), h) := by
  rw [holds.setItem_eq, Run.bind_apply, ArrayRef.set_outside outside]
  rfl

theorem count_apply (few : (h.items a).size ≤ Int32.maxValue.toInt) :
    NameList.count itemsField r ⟨list, #[]⟩ h =
      (.ok (.int32 (Int32.ofNat (h.items a).size)), h) := by
  simp only [NameList.count, Run.bind_apply, Run.get_apply, holds.list_apply, if_pos few]
  rfl

end Holds

section Facades

variable {maker : Registry} {policy : Policy} {p : Program} (provided : Provided p)
  {list : Value} {a : ArrayRef} {h : Heap} (holds : Holds p.registry list a h)

include provided holds

theorem count_eq {counter : PropertyFacade}
    (made : ofProperty maker countProperty policy = .ok counter)
    (few : (h.items a).size ≤ Int32.maxValue.toInt) :
    counter.read p list #[] h = (.ok (.int32 (Int32.ofNat (h.items a).size)), h) := by
  obtain ⟨o, rfl, accepts, _⟩ := holds.exists_object
  have typed : ∀ q ∈ countGetter.params, q.type ≠ .void := by decide
  rw [read_of_direct made typed rfl rfl rfl accepts rfl rfl, provided.count]
  show (pure [] >>= _ : RunM Value) h = _
  rw [pure_bind, Run.bind_apply, holds.count_apply few]
  rfl

variable {item : PropertyFacade} (made : ofProperty maker itemProperty policy = .ok item)

include made

omit holds in
theorem read_of_size {index : Array Value} (size : index.size ≠ 1) :
    item.read p list index h =
      (.error (.argumentCount "NameList::get_Item" 1 index.size), h) := by
  obtain ⟨getter, made, reads⟩ := exists_getter made rfl
  rw [reads, MethodFacade.invoke_of_count_ne made p list size, provided.methodLabel rfl]
  rfl

omit holds in
theorem write_of_size {index : Array Value} (size : index.size ≠ 1) (v : Value) :
    item.write p list v index h =
      (.error (.argumentCount "NameList::set_Item" 2 (index.size + 1)), h) := by
  obtain ⟨setter, made, writes⟩ := exists_setter made rfl
  have count : (index.push v).size ≠ itemSetter.params.length := by
    rw [Array.size_push]
    exact fun same => size (Nat.succ.inj same)
  rw [writes, MethodFacade.invoke_of_count_ne made p list count, provided.methodLabel rfl,
    Array.size_push]
  rfl

theorem read_eq (u : Value) :
    item.read p list #[u] = (do
      let s ← u.unbox p.registry .int32
      let result ← NameList.getItem itemsField p.registry ⟨list, #[s]⟩
      MethodInvoker.finish p.registry itemGetter result) := by
  obtain ⟨o, rfl, accepts, _⟩ := holds.exists_object
  have typed : ∀ q ∈ itemGetter.params, q.type ≠ .void := by decide
  have unboxed : unboxAll p.registry itemGetter.params #[u] =
      (do return [← u.unbox p.registry .int32]) := by
    simp [unboxAll, itemGetter, int]
  rw [read_of_direct made typed rfl rfl rfl accepts rfl rfl, provided.getItem, unboxed]
  simp only [bind_assoc, pure_bind]

theorem write_eq (u v : Value) :
    item.write p list v #[u] = discard (do
      let i ← u.unbox p.registry .int32
      let s ← v.unbox p.registry .string
      let result ← NameList.setItem itemsField p.registry ⟨list, #[i, s]⟩
      MethodInvoker.finish p.registry itemSetter result) := by
  obtain ⟨o, rfl, accepts, _⟩ := holds.exists_object
  have typed : ∀ q ∈ itemSetter.params, q.type ≠ .void := by decide
  have unboxed : unboxAll p.registry itemSetter.params (#[u].push v) =
      (do return [← u.unbox p.registry .int32, ← v.unbox p.registry .string]) := by
    simp [unboxAll, itemSetter, int, text]
  rw [write_of_direct made typed rfl rfl rfl accepts rfl v rfl, provided.setItem, unboxed]
  simp only [bind_assoc, pure_bind]

theorem read_position (n : Int32) :
    item.read p list #[.int32 n] h = (elementAt (h.items a) n, h) := by
  rw [read_eq provided holds made, Value.unbox_int32, pure_bind, Run.bind_apply,
    holds.getItem_apply]
  cases elementAt (h.items a) n <;> rfl

theorem read_of_mistyped {u : Value} (mistyped : ∀ n, u ≠ .int32 n) :
    item.read p list #[u] h = (.error (u.unboxError p.registry .int32), h) := by
  rw [read_eq provided holds made, Value.unbox_int32_of_ne mistyped]
  rfl

theorem write_of_mistyped {u : Value} (mistyped : ∀ n, u ≠ .int32 n) (v : Value) :
    item.write p list v #[u] h = (.error (u.unboxError p.registry .int32), h) := by
  rw [write_eq provided holds made, Value.unbox_int32_of_ne mistyped]
  rfl

theorem write_of_not_isText (n : Int32) {v : Value} (stuck : ¬ v.IsText p.registry) :
    item.write p list v #[.int32 n] h =
      (.error (.invalidCast "String" (v.typeName p.registry)), h) := by
  rw [write_eq provided holds made, Value.unbox_string_of_not_isText stuck]
  rfl

theorem write_of_isText (n : Int32) {v : Value} (text : v.IsText p.registry) :
    item.write p list v #[.int32 n] = discard (do
      let result ← NameList.setItem itemsField p.registry ⟨list, #[.int32 n, .ref v]⟩
      MethodInvoker.finish p.registry itemSetter result) := by
  rw [write_eq provided holds made, Value.unbox_int32, pure_bind,
    Value.unbox_string_of_isText text, pure_bind]

theorem write_inside {n : Int32} {i : Nat} (position : n.toInt = i) (bound : i < (h.items a).size)
    {v : Value} (text : v.IsText p.registry) :
    item.write p list v #[.int32 n] h = (.ok (), h.setItem a i v) := by
  rw [write_of_isText provided holds made n text]
  refine Run.discard_of_ok (a := Value.null) ?_
  rw [Run.bind_apply, holds.setItem_inside position bound]
  rfl

theorem write_outside {n : Int32} (outside : n.toInt < 0 ∨ (h.items a).size ≤ n.toInt)
    {v : Value} (text : v.IsText p.registry) :
    item.write p list v #[.int32 n] h =
      (.error (.indexOutOfRange n.toInt (h.items a).size), h) := by
  rw [write_of_isText provided holds made n text]
  refine Run.discard_of_error ?_
  rw [Run.bind_apply, holds.setItem_outside outside]

theorem read_keeps (index : Array Value) : (item.read p list index h).2 = h := by
  cases indexList index with
  | position n => rw [read_position provided holds made]
  | mistyped mistyped => rw [read_of_mistyped provided holds made mistyped]
  | miscounted size => rw [read_of_size provided made size]

/-- A write puts a text at a position of the array, or it fails and changes nothing. -/
theorem write_cases (index : Array Value) (value : Value) :
    (∃ i < (h.items a).size,
      (∀ j, (Access.set index value).put? p.registry j = if i = j then some value else none) ∧
        item.write p list value index h = (.ok (), h.setItem a i value)) ∨
    (∀ i < (h.items a).size, (Access.set index value).put? p.registry i = none) ∧
      ∃ e, item.write p list value index h = (.error e, h) := by
  -- Where an access has a fault, there is no position at which it puts its value.
  have puts_nothing (fault : ∀ (n : Int32) (i : Nat), index = #[.int32 n] → n.toInt = i →
      i < (h.items a).size → ¬ value.IsText p.registry) :
      ∀ i < (h.items a).size, (Access.set index value).put? p.registry i = none := by
    intro i bound
    refine Option.eq_none_iff_forall_ne_some.mpr fun v put => ?_
    obtain ⟨n, same, position, text⟩ := Access.put?_eq_some.mp put
    cases same
    exact fault n i rfl position bound text
  cases indexList index with
  | position n =>
    by_cases text : value.IsText p.registry
    · by_cases outside : n.toInt < 0 ∨ (h.items a).size ≤ n.toInt
      · refine .inr ⟨puts_nothing fun m i same position bound => ?_, _,
          write_outside provided holds made outside text⟩
        cases same
        omega
      · have position : n.toInt = (n.toInt.toNat : Nat) := by omega
        have bound : n.toInt.toNat < (h.items a).size := by omega
        exact .inl ⟨_, bound, Access.put?_of_isText position text,
          write_inside provided holds made position bound text⟩
    · exact .inr ⟨puts_nothing fun _ _ _ _ _ => text, _,
        write_of_not_isText provided holds made n text⟩
  | mistyped mistyped =>
    refine .inr ⟨puts_nothing fun n _ same => ?_, _,
      write_of_mistyped provided holds made mistyped value⟩
    cases same
    exact absurd rfl (mistyped n)
  | miscounted size =>
    refine .inr ⟨puts_nothing fun n _ same => ?_, _, write_of_size provided made size value⟩
    cases same
    exact absurd rfl size

/-- What one access does to a list: the list keeps its array, and of the array no element changes
but the one at which the access puts a text. -/
theorem holds_after (access : Access) :
    Holds p.registry list a (access.after p item list h) ∧
      ∀ i, ((access.after p item list h).items a)[i]? =
        (h.items a)[i]?.map fun old => (access.put? p.registry i).getD old := by
  cases access with
  | get index =>
    rw [Access.after, read_keeps provided holds made index]
    exact ⟨holds, fun i => (Option.map_id_apply ..).symm⟩
  | set index value =>
    rcases write_cases provided holds made index value with
      ⟨i, bound, puts, wrote⟩ | ⟨nothing, e, failed⟩
    · rw [Access.after, wrote]
      refine ⟨holds.setItem a i value, fun j => ?_⟩
      rw [Heap.items_setItem_self, puts]
      by_cases here : i = j
      · subst here
        rw [if_pos rfl, Array.getElem?_setIfInBounds_self_of_lt bound,
          Array.getElem?_eq_getElem bound]
        rfl
      · rw [if_neg here, Array.getElem?_setIfInBounds_ne here]
        exact (Option.map_id_apply ..).symm
    · rw [Access.after, failed]
      refine ⟨holds, fun i => ?_⟩
      cases there : (h.items a)[i]? with
      | none => rfl
      | some old =>
        obtain ⟨bound, _⟩ := Array.getElem?_eq_some_iff.mp there
        rw [nothing i bound]
        rfl

/-- What accesses do one after the other. -/
theorem holds_afterAll (accesses : List Access) :
    Holds p.registry list a (Access.afterAll p item list accesses h) ∧
      ∀ i, ((Access.afterAll p item list accesses h).items a)[i]? =
        (h.items a)[i]?.map fun old => (Access.latest? p.registry i accesses).getD old := by
  induction accesses generalizing h with
  | nil => exact ⟨holds, fun i => (Option.map_id_apply ..).symm⟩
  | cons access later ih =>
    obtain ⟨held, items⟩ := holds_after provided holds made access
    obtain ⟨held', items'⟩ := ih held
    refine ⟨held', fun i => (items' i).trans ?_⟩
    rw [items i, Option.map_map, Access.latest?_cons]
    refine Option.map_congr fun old _ => ?_
    cases Access.latest? p.registry i later <;> rfl

end Facades

/-- Whether the façades of a list show an array of texts, the one at `a`: the number of values of an
index is checked first, then the index and the value are converted, then the position is checked
against the bounds, and nothing is changed but the element that is set. -/
structure ActsAsArray (p : Program) (item counter : PropertyFacade) (list : Value) (a : ArrayRef)
    (items : Array Value) (h : Heap) : Prop where
  holds : Holds p.registry list a h
  contents : h.items a = items
  texts : ∀ v ∈ items, v.IsText p.registry
  get {n : Int32} {i : Nat} {v : Value} (position : n.toInt = i) (there : items[i]? = some v) :
    item.read p list #[.int32 n] h = (.ok v, h)
  set {n : Int32} {i : Nat} {v : Value} (position : n.toInt = i) (bound : i < items.size)
    (text : v.IsText p.registry) :
    item.write p list v #[.int32 n] h = (.ok (), h.setItem a i v) ∧
      (h.setItem a i v).items a = items.setIfInBounds i v
  getOutside {n : Int32} (outside : n.toInt < 0 ∨ items.size ≤ n.toInt) :
    item.read p list #[.int32 n] h = (.error (.indexOutOfRange n.toInt items.size), h)
  setOutside {n : Int32} {v : Value} (outside : n.toInt < 0 ∨ items.size ≤ n.toInt)
    (text : v.IsText p.registry) :
    item.write p list v #[.int32 n] h = (.error (.indexOutOfRange n.toInt items.size), h)
  mistypedIndex {u : Value} (mistyped : ∀ n, u ≠ .int32 n) :
    (u.unboxError p.registry .int32).isConversion = true ∧
      item.read p list #[u] h = (.error (u.unboxError p.registry .int32), h) ∧
      ∀ v, item.write p list v #[u] h = (.error (u.unboxError p.registry .int32), h)
  mistypedValue (n : Int32) {v : Value} (stuck : ¬ v.IsText p.registry) :
    item.write p list v #[.int32 n] h =
      (.error (.invalidCast "String" (v.typeName p.registry)), h)
  miscounted {index : Array Value} (size : index.size ≠ 1) :
    item.read p list index h = (.error (.argumentCount "NameList::get_Item" 1 index.size), h) ∧
      ∀ v, item.write p list v index h =
        (.error (.argumentCount "NameList::set_Item" 2 (index.size + 1)), h)
  count : ∃ n : Int32, n.toInt = items.size ∧ counter.read p list #[] h = (.ok (.int32 n), h)

theorem actsAsArray_of_holds {maker : Registry} {policy : Policy} {item counter : PropertyFacade}
    (itemMade : ofProperty maker itemProperty policy = .ok item)
    (countMade : ofProperty maker countProperty policy = .ok counter)
    {p : Program} (provided : Provided p) {list : Value} {a : ArrayRef} {h : Heap}
    (holds : Holds p.registry list a h) (few : (h.items a).size ≤ Int32.maxValue.toInt)
    (texts : ∀ v ∈ h.items a, v.IsText p.registry) :
    ActsAsArray p item counter list a (h.items a) h where
  holds := holds
  contents := rfl
  texts := texts
  get {n i v} position there := by
    rw [read_position provided holds itemMade, elementAt_inside position there]
  set {n i v} position bound text :=
    ⟨write_inside provided holds itemMade position bound text, h.items_setItem_self a i v⟩
  getOutside {n} outside := by
    rw [read_position provided holds itemMade, elementAt_outside outside]
  setOutside {n v} outside text := write_outside provided holds itemMade outside text
  mistypedIndex {u} mistyped :=
    ⟨Value.isConversion_unboxError .., read_of_mistyped provided holds itemMade mistyped,
      write_of_mistyped provided holds itemMade mistyped⟩
  mistypedValue n {v} stuck := write_of_not_isText provided holds itemMade n stuck
  miscounted {index} size :=
    ⟨read_of_size provided itemMade size, write_of_size provided itemMade size⟩
  count := by
    have most : Int32.maxValue.toInt = 2147483647 := rfl
    have bound : (h.items a).size < 2 ^ 31 := by omega
    exact ⟨_, Int32.toInt_ofNat_of_lt bound, count_eq provided holds countMade few⟩

/-- Under either policy, and whatever has been defined since, the façades of a name list show an
array of texts after any number of accesses, in which each element is the text put there last, or
what was there at first. -/
theorem indexer_acts_as_array {maker h : Host} (made : host.Reaches maker)
    (reached : host.Reaches h) (policy : Policy) (depth : Nat) :
    maker.registry.property? nameList "Item" = some itemProperty ∧
      maker.registry.property? nameList "Count" = some countProperty ∧
      h.registry.field? nameList "items" = some itemsField ∧
      ∃ item counter,
        ofProperty maker.registry itemProperty policy = .ok item ∧
        ofProperty maker.registry countProperty policy = .ok counter ∧
        ∀ (list : Value) (a : ArrayRef) (before : Heap), Holds h.registry list a before →
          (before.items a).size ≤ Int32.maxValue.toInt →
          (∀ v ∈ before.items a, v.IsText h.registry) → ∀ earlier : List Access,
            ActsAsArray (h.program (depth + 1)) item counter list a
              ((before.items a).mapIdx fun i old =>
                (Access.latest? h.registry i earlier).getD old)
              (Access.afterAll (h.program (depth + 1)) item list earlier before) := by
  obtain ⟨items, _, _⟩ := lookups_of_reaches reached
  obtain ⟨_, itemFound, countFound⟩ := lookups_of_reaches made
  obtain ⟨item, counter, itemMade, countMade⟩ := exists_facades maker.registry policy
  refine ⟨itemFound, countFound, items, item, counter, itemMade, countMade,
    fun list a before holds few texts earlier => ?_⟩
  have provided := provided_of_reaches reached depth
  obtain ⟨held, same⟩ := holds_afterAll provided holds itemMade earlier
  have shown : (Access.afterAll (h.program (depth + 1)) item list earlier before).items a =
      (before.items a).mapIdx fun i old => (Access.latest? h.registry i earlier).getD old := by
    refine Array.ext_getElem? fun i => ?_
    rw [same i, Array.getElem?_mapIdx]
    rfl
  rw [← shown]
  refine actsAsArray_of_holds itemMade countMade provided held ?_ ?_
  · rw [shown, Array.size_mapIdx]
    exact few
  · rw [shown]
    intro v there
    obtain ⟨i, bound, rfl⟩ := Array.mem_mapIdx.mp there
    cases latest : Access.latest? h.registry i earlier with
    | none => exact texts _ (Array.getElem_mem bound)
    | some v => exact Access.isText_of_latest? latest

end Prelude.NameList

namespace Roster

open Prelude Prelude.NameList PropertyFacade

abbrev label : Ty := .classType 5

/-- A host at which a class of labels has been started that derives from `String`. -/
def extended : Host := (host.startDerived "Label" .string).1

theorem reaches_extended : host.Reaches extended := .step .refl (.startDerived "Label" .string)

def list : Value := .object ⟨nameList, 0⟩

/-- The list holds a name and has room for another; at the second address there is a label. -/
def memory : Heap where
  objects := #[[.ref (.array ⟨0⟩)], []]
  arrays := #[#[.string "Ada", .null]]

theorem holds_memory : Holds extended.registry list ⟨0⟩ memory := rfl

theorem texts_memory : ∀ v ∈ memory.items ⟨0⟩, v.IsText extended.registry := by
  decide

/-- A name is put at the second place; the other accesses fail. -/
def accesses : List Access :=
  [.set #[.int32 1] (.string "Blaise"), .set #[.int32 2] (.string "Carl"),
    .set #[.int32 0] (.int32 7), .get #[]]

end Roster

open Roster Prelude Prelude.NameList PropertyFacade

theorem indexer_acts_as_array_roster :
    host.Reaches extended ∧ Holds extended.registry list ⟨0⟩ memory ∧
      (∀ v ∈ memory.items ⟨0⟩, v.IsText extended.registry) ∧
      ∃ item counter, ofProperty extended.registry itemProperty .trusted = .ok item ∧
        ActsAsArray (extended.program 1) item counter list ⟨0⟩ #[.string "Ada", .string "Blaise"]
          (Access.afterAll (extended.program 1) item list accesses memory) := by
  obtain ⟨_, _, _, item, counter, made, _, acts⟩ :=
    indexer_acts_as_array reaches_extended reaches_extended .trusted 0
  refine ⟨reaches_extended, holds_memory, texts_memory, item, counter, made, ?_⟩
  exact acts list ⟨0⟩ memory holds_memory (by decide) texts_memory accesses

/-- A label is neither a string nor null, and yet it can be put into the list. -/
theorem indexer_takes_label :
    ∃ item, PropertyFacade.find extended.registry nameList "Item" = .ok item ∧
      Holds extended.registry list ⟨0⟩ memory ∧
      memory.items ⟨0⟩ = #[.string "Ada", .null] ∧
      (Value.object ⟨label, 1⟩).isNull = false ∧ (Value.object ⟨label, 1⟩).string? = none ∧
      ∃ later,
        item.write (extended.program 1) list (.object ⟨label, 1⟩) #[.int32 0] memory =
          (.ok (), later) ∧
        item.read (extended.program 1) list #[.int32 0] later =
          (.ok (.object ⟨label, 1⟩), later) := by
  obtain ⟨_, found, _⟩ := lookups_of_reaches reaches_extended
  obtain ⟨item, _, made, _⟩ := exists_facades extended.registry .checked
  have provided := provided_of_reaches reaches_extended 0
  have text : (Value.object ⟨label, 1⟩).IsText extended.registry := .object rfl
  refine ⟨item, ?_, holds_memory, rfl, rfl, rfl, memory.setItem ⟨0⟩ 0 (.object ⟨label, 1⟩),
    write_inside provided holds_memory made rfl (by decide) text, ?_⟩
  · rw [PropertyFacade.find, found]
    exact made
  · rw [read_position provided (holds_memory.setItem ..) made]
    rfl

end MemberAccess
