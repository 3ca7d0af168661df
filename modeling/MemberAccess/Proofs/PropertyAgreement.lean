import MemberAccess.Proofs.Dispatch
import MemberAccess.Proofs.EarlyFailures

/-!
Façades of properties against access by descriptor. A property is accessed by calling its accessors,
so the two ways agree as the calls do, once the arguments of the setter are the same: the values of
the index in their order, and the new value behind them.
-/

namespace MemberAccess

open Code Invoker

/-- Whether every body that a call of `m` can enter gives a reference, provided that `m` returns
one. -/
def Program.GivesReferences (p : Program) (m : Method) : Prop :=
  m.returns.isReferenceType = true → ∀ this frame,
    (p.bodies.method (p.registry.target m this) frame).Yields fun s => ∃ v, s = .ref v

/-- The body of `m`; all others give null. -/
def Bodies.only (b : Bodies) (m : Method) : Bodies :=
  { b with method := fun o frame => if o = m then b.method o frame else pure .null }

theorem Bodies.method_only (b : Bodies) (m : Method) : (b.only m).method m = b.method m :=
  funext fun _ => if_pos rfl

theorem Registry.returns_target (r : Registry) (m : Method) (this : Value) :
    (r.target m this).returns = m.returns := by
  rcases r.target_eq_or_overrides m this with same | overriding
  · rw [same]
  · exact (Method.overrides_iff.mp overriding.overrides).2.2.2.1

theorem Program.GivesReferences.only {p : Program} {m : Method} (references : p.GivesReferences m)
    (this : Value) : (p.bodies.only (p.registry.target m this)).ReturnReferences := by
  intro o frame returns
  by_cases entered : o = p.registry.target m this
  · subst entered
    rw [Bodies.method_only]
    rw [Registry.returns_target] at returns
    exact references returns this frame
  · have null : (p.bodies.only (p.registry.target m this)).method o frame = pure .null :=
      if_neg entered
    rw [null]
    exact .pure ⟨.null, rfl⟩

namespace MethodFacade

variable {r r' : Registry} {m : Method} {x : MethodFacade}

theorem invoke_entersOnly {policy : Policy} (made : ofMethod r' m policy = .ok x) (r : Registry)
    (this : Value) (args : Array Value) :
    EntersOnly (· = r.target m this) fun b => x.invoke ⟨r, b⟩ this args := by
  refine .bind (fun _ _ _ => rfl) fun _ => ?_
  exact MethodInvoker.invoke_entersOnly (of_ofMethod made) r this args

/-- For a façade to do as invocation by descriptor does, the bodies that it can enter have to give
references where they should. -/
theorem invoke_of_ofMethod (made : ofMethod r' m = .ok x) (typed : ∀ a ∈ m.params, a.type ≠ .void)
    {p : Program} (references : p.GivesReferences m) (this : Value) (args : Array Value) :
    x.invoke p this args = m.invoke p this args := by
  obtain ⟨body, same, few⟩ := MethodInvoker.of_compile (of_ofMethod made)
  have whole : x = ⟨m, x.invoker.routine⟩ := congrArg MethodFacade.mk same
  have agree : x.invoke ⟨p.registry, p.bodies.only (p.registry.target m this)⟩ this args =
      m.invoke ⟨p.registry, p.bodies.only (p.registry.target m this)⟩ this args := by
    rw [whole]
    exact invoke_eq_invoke (references.only this) few typed body this args
  -- Neither of the two shows what bodies do that are not entered.
  have shown (o : Method) (entered : o = p.registry.target m this) :
      p.bodies.method o = (p.bodies.only (p.registry.target m this)).method o := by
    subst entered
    rw [Bodies.method_only]
  have byFacade := invoke_entersOnly made p.registry this args p.bodies _ shown
  have byDescriptor := m.invoke_entersOnly p.registry this args p.bodies _ shown
  exact byFacade.trans (agree.trans byDescriptor.symm)

end MethodFacade

namespace Property

/-- The accessors that there are. -/
def accessors (q : Property) : List Method :=
  q.getter?.toList ++ q.setter?.toList

theorem mem_accessors_of_getter {q : Property} {m : Method} (getter : q.getter? = some m) :
    m ∈ q.accessors := by
  simp [accessors, getter]

theorem mem_accessors_of_setter {q : Property} {m : Method} (setter : q.setter? = some m) :
    m ∈ q.accessors := by
  simp [accessors, setter]

end Property

/-- What a setter does that has a parameter for each value of the index and one more: it is entered
with the values of the index in their order, and the new value behind them. -/
def Method.assign (p : Program) (m : Method) (indexParams : List Param) (valueParam : Param)
    (target value : Value) (index : Array Value) : RunM Unit := do
  let slots ← unboxAll p.registry indexParams index
  let s ← value.unbox p.registry valueParam.type
  let result ← m.enter p .checked target (slots ++ [s])
  discard (if m.returns.isVoid then pure Value.null else result.box p.registry m.returns)

theorem unboxAll_push (r : Registry) {params : List Param} (q : Param) {args : Array Value}
    (value : Value) (count : args.size = params.length) :
    unboxAll r (params ++ [q]) (args.push value) = (do
      let slots ← unboxAll r params args
      let s ← value.unbox r q.type
      return slots ++ [s]) := by
  have sizes : params.length = args.toList.length := count.symm
  have pairs : (params ++ [q]).zip (args.push value).toList =
      params.zip args.toList ++ [(q, value)] := by
    rw [Array.toList_push, List.zip_append sizes]
    rfl
  simp only [unboxAll, pairs, List.mapM_append, List.mapM_cons, List.mapM_nil, bind_assoc,
    pure_bind]

theorem Run.discard_bind (x : Run ε α) (f : α → Run ε β) :
    discard (x >>= f) = x >>= fun a => discard (f a) := by
  simp [Functor.discard, map_const]

namespace Method

variable {m : Method}

theorem discard_invoke_push (p : Program) {indexParams : List Param} {valueParam : Param}
    (params : m.params = indexParams ++ [valueParam]) (target value : Value) {index : Array Value}
    (count : index.size = indexParams.length) :
    discard (m.invoke p target (index.push value)) =
      m.assign p indexParams valueParam target value index := by
  have full : (index.push value).size = m.params.length := by
    rw [Array.size_push, params, List.length_append, count, List.length_singleton]
  rw [invoke_eq, unboxArguments_bind, if_pos full, params, unboxAll_push _ _ _ count]
  simp only [bind_assoc, pure_bind, Run.discard_bind, assign]

theorem discard_invoke_of_ne (p : Program) (target value : Value) {index : Array Value}
    (count : m.params.length ≠ index.size + 1) :
    discard (m.invoke p target (index.push value)) =
      throw (.argumentCount (p.registry.methodLabel m) m.params.length (index.size + 1)) := by
  have wrong : (index.push value).size ≠ m.params.length := by
    rw [Array.size_push]
    exact count.symm
  rw [invoke_eq, unboxArguments_bind, if_neg wrong, Array.size_push]
  rfl

end Method

namespace PropertyFacade

/-- There is a façade exactly if there is an accessor, and then it is made from that one. -/
inductive Wraps (r : Registry) : Option Method → Option MethodFacade → Prop
  | absent : Wraps r none none
  | present {m : Method} {x : MethodFacade} (made : MethodFacade.ofMethod r m = .ok x) :
      Wraps r (some m) (some x)

variable {r : Registry} {m? : Option Method} {q : Property}

theorem exists_accessor (compilable : ∀ m, m? = some m → ∃ i, MethodInvoker.compile r m = .ok i) :
    ∃ x?, accessor r m? .checked = .ok x? ∧ Wraps r m? x? := by
  cases m? with
  | none => exact ⟨none, rfl, .absent⟩
  | some m =>
    obtain ⟨i, compiled⟩ := compilable m rfl
    have made : MethodFacade.ofMethod r m = .ok ⟨i⟩ := by
      rw [MethodFacade.ofMethod, compiled]
      rfl
    refine ⟨some ⟨i⟩, ?_, .present made⟩
    rw [accessor, made]
    rfl

theorem exists_ofProperty
    (compilable : ∀ m ∈ q.accessors, ∃ i, MethodInvoker.compile r m = .ok i) :
    ∃ x, ofProperty r q = .ok x ∧ x.property = q ∧
      Wraps r q.getter? x.getter? ∧ Wraps r q.setter? x.setter? := by
  obtain ⟨getter?, madeGetter, getters⟩ := exists_accessor fun m there =>
    compilable m (Property.mem_accessors_of_getter there)
  obtain ⟨setter?, madeSetter, setters⟩ := exists_accessor fun m there =>
    compilable m (Property.mem_accessors_of_setter there)
  refine ⟨⟨q, getter?, setter?⟩, ?_, rfl, getters, setters⟩
  rw [ofProperty, madeGetter, madeSetter]
  rfl

/-- An empty index is no case of its own: the value alone is the index with the value behind it. -/
theorem write_of_setter (p : Program) {x : PropertyFacade} {setter : MethodFacade}
    (there : x.setter? = some setter) (target value : Value) (index : Array Value) :
    x.write p target value index = discard (setter.invoke p target (index.push value)) := by
  simp only [write, there]
  by_cases empty : index.isEmpty
  · rw [if_pos empty, Array.isEmpty_iff.mp empty]
    rfl
  · rw [if_neg empty, Array.push_eq_append]

section Accesses

variable {x : PropertyFacade} (property : x.property = q) {p : Program}
  (typed : ∀ m ∈ q.accessors, ∀ a ∈ m.params, a.type ≠ .void)
  (references : ∀ m ∈ q.accessors, p.GivesReferences m)

include property typed references

theorem read_of_wraps (wraps : Wraps r q.getter? x.getter?) (target : Value)
    (index : Array Value) : x.read p target index = q.read p target index := by
  unfold read Property.read
  generalize getter : q.getter? = m?, x.getter? = x? at wraps ⊢
  cases wraps with
  | absent => simp only [property]
  | present made =>
    have mem := Property.mem_accessors_of_getter getter
    exact MethodFacade.invoke_of_ofMethod made (typed _ mem) (references _ mem) target index

theorem write_of_wraps (wraps : Wraps r q.setter? x.setter?) (target value : Value)
    (index : Array Value) : x.write p target value index = q.write p target value index := by
  unfold Property.write
  generalize setter : q.setter? = m?, there : x.setter? = x? at wraps ⊢
  cases wraps with
  | absent => simp only [write, there, property]
  | present made =>
    have mem := Property.mem_accessors_of_setter setter
    rw [write_of_setter p there,
      MethodFacade.invoke_of_ofMethod made (typed _ mem) (references _ mem)]

end Accesses

/-- A property's façade reads and writes as access by descriptor does, from every store, with the
same effects and the same failures, whichever of the accessors there are and however long the index
is. A setter that takes one value more than the index has is entered with the values of the index in
their order and the new value behind them; any other setter rejects their number. -/
theorem access_eq_property_access (r : Registry) {q : Property}
    (compilable : ∀ m ∈ q.accessors, ∃ i, MethodInvoker.compile r m = .ok i)
    (typed : ∀ m ∈ q.accessors, ∀ a ∈ m.params, a.type ≠ .void) :
    ∃ x, ofProperty r q = .ok x ∧
      ∀ p : Program, (∀ m ∈ q.accessors, p.GivesReferences m) → ∀ target index before,
        x.read p target index before = q.read p target index before ∧
        ∀ value,
          x.write p target value index before = q.write p target value index before ∧
          ∀ m, q.setter? = some m →
            (∀ indexParams valueParam, m.params = indexParams ++ [valueParam] →
              index.size = indexParams.length →
              x.write p target value index before =
                m.assign p indexParams valueParam target value index before) ∧
            (m.params.length ≠ index.size + 1 →
              x.write p target value index before =
                (.error (.argumentCount (p.registry.methodLabel m) m.params.length
                  (index.size + 1)), before)) := by
  obtain ⟨x, made, property, getters, setters⟩ := exists_ofProperty compilable
  refine ⟨x, made, fun p references target index before => ⟨?_, fun value => ?_⟩⟩
  · rw [read_of_wraps property typed references getters]
  · rw [write_of_wraps property typed references setters]
    refine ⟨rfl, fun m there => ?_⟩
    have written : q.write p target value index =
        discard (m.invoke p target (index.push value)) := by
      simp only [Property.write, there]
    rw [written]
    refine ⟨fun indexParams valueParam params count => ?_, fun count => ?_⟩
    · rw [Method.discard_invoke_push p params target value count]
    · rw [Method.discard_invoke_of_ne p target value count]
      rfl

end PropertyFacade

/-! A row has cells by column and a title that cannot be read. -/

namespace Row

def row : Ty := .classType 0

def first : Value := .object ⟨row, 0⟩

def column : Param := ⟨"column", .int32, false⟩
def text : Param := ⟨"value", .string, false⟩

def getCell : Method := ⟨row, 0, "get_Cell", [column], .string, { isPublic := true }⟩
def setCell : Method := ⟨row, 1, "set_Cell", [column, text], .void, { isPublic := true }⟩
def setTitle : Method := ⟨row, 2, "set_Title", [text], .void, { isPublic := true }⟩

def cell : Property := ⟨row, 0, "Cell", .string, [column], some getCell, some setCell⟩
def title : Property := ⟨row, 1, "Title", .string, [], none, some setTitle⟩

/-- One value alone is a column to read or, as the row keeps its title in the first cell, a title. -/
def visit (o : ObjectRef) (slots : List Slot) : RunM Value := do
  match slots with
  | [.int32 n] =>
    match (← get).load? o n.toNatClampNeg with
    | some (.ref v) => return v
    | _ => return .null
  | [.int32 n, s] =>
    modify fun h => h.store o n.toNatClampNeg s
    return .null
  | [s] =>
    modify fun h => h.store o 0 s
    return .null
  | _ => return .null

def program : Program where
  registry :=
    { types := #[⟨"Row", [.object], .finished (Draft.members
        { methods := [getCell, setCell, setTitle], properties := [cell, title] })⟩] }
  bodies :=
    { method := fun _ frame => do
        let o ← Run.ofExcept (frame.receiverObject {})
        let v ← visit o frame.args.toList
        return .ref v
      constructor := fun _ _ => pure () }

theorem givesReferences (m : Method) : program.GivesReferences m := fun _ _ _ =>
  .bind (.trivial _) fun _ _ => .bind (.trivial _) fun v _ => .pure ⟨v, rfl⟩

theorem compilable {m : Method} (mem : m ∈ [getCell, setCell, setTitle]) :
    ∃ i, MethodInvoker.compile program.registry m = .ok i := by
  have byValue : ∀ m ∈ [getCell, setCell, setTitle], ∀ q ∈ m.params, q.byRef = false := by decide
  have few : ∀ m ∈ [getCell, setCell, setTitle], m.params.length < 65535 := by decide
  exact ⟨_, MethodInvoker.compile_eq_ok program.registry .checked (byValue m mem) (few m mem)⟩

end Row

namespace PropertyFacade

open Row

/-- The second cell is written and read back; a cell is not written without its column. The title is
written without an index, and cannot be read. -/
theorem access_row :
    (∀ q ∈ [cell, title], ∀ m ∈ q.accessors,
      (∃ i, MethodInvoker.compile program.registry m = .ok i) ∧
        (∀ a ∈ m.params, a.type ≠ .void) ∧ program.GivesReferences m) ∧
      (∃ x, ofProperty program.registry cell = .ok x ∧
        x.write program first (.string "b") #[.int32 1] { objects := #[[.ref .null, .ref .null]] } =
          (.ok (), { objects := #[[.ref .null, .ref (.string "b")]] }) ∧
        x.read program first #[.int32 1]
            { objects := #[[.ref .null, .ref (.string "b")]] } =
          (.ok (.string "b"), { objects := #[[.ref .null, .ref (.string "b")]] }) ∧
        x.write program first (.string "b") #[] {} =
          (.error (.argumentCount "Row::set_Cell" 2 1), {})) ∧
      ∃ x, ofProperty program.registry title = .ok x ∧
        x.write program first (.string "a") #[]
            { objects := #[[.ref .null, .ref .null]] } =
          (.ok (), { objects := #[[.ref (.string "a"), .ref .null]] }) ∧
        x.read program first #[] {} = (.error (.missingAccessor "Row::Title" .getter), {}) := by
  have typed : ∀ q ∈ [cell, title], ∀ m ∈ q.accessors, ∀ a ∈ m.params, a.type ≠ .void := by decide
  have declared : ∀ q ∈ [cell, title], ∀ m ∈ q.accessors, m ∈ [getCell, setCell, setTitle] := by
    decide
  have compiled (q : Property) (known : q ∈ [cell, title]) (m : Method) (mem : m ∈ q.accessors) :
      ∃ i, MethodInvoker.compile program.registry m = .ok i :=
    compilable (declared q known m mem)
  have references (q : Property) : ∀ m ∈ q.accessors, program.GivesReferences m :=
    fun m _ => givesReferences m
  have cellKnown : cell ∈ [cell, title] := by decide
  have titleKnown : title ∈ [cell, title] := by decide
  obtain ⟨x, madeCell, cells⟩ := access_eq_property_access program.registry
    (compiled _ cellKnown) (typed _ cellKnown)
  obtain ⟨y, madeTitle, titles⟩ := access_eq_property_access program.registry
    (compiled _ titleKnown) (typed _ titleKnown)
  refine ⟨fun q known m mem => ⟨compiled q known m mem, typed q known m mem,
    references q m mem⟩, ⟨x, madeCell, ?_, ?_, ?_⟩, y, madeTitle, ?_, ?_⟩
  · have assigned := ((cells program (references _) first #[.int32 1]
      { objects := #[[.ref .null, .ref .null]] }).2 (.string "b")).2 _ rfl
    rw [assigned.1 [column] text rfl rfl]
    rfl
  · rw [(cells program (references _) _ _ _).1]
    rfl
  · have rejected := ((cells program (references _) first #[] {}).2 (.string "b")).2 _ rfl
    rw [rejected.2 (by decide)]
    rfl
  · rw [((titles program (references _) _ _ _).2 _).1]
    rfl
  · rw [(titles program (references _) _ _ _).1]
    rfl

end PropertyFacade

end MemberAccess
