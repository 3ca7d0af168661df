import MemberAccess.Proofs.CallAgreement
import MemberAccess.Proofs.Memories

/-!
Operations on stores, as sequences of acts. Whatever way a member is used, by descriptor or through
a compiled invoker, it does acts only and gives genuine references only, as long as the bodies of
members do so.
-/

namespace MemberAccess

open Code Invoker

/-- Whether a computation on a memory does acts only, and `P` holds of what it gives for the types
that objects have been made as by then. -/
def Run.Tracks (r : Registry) (m : Memory) (x : Run ε α) (P : Array Ty → α → Prop) : Prop :=
  ∃ m', Memory.Acts r m m' ∧ (x m.heap).2 = m'.heap ∧ ∀ a, (x m.heap).1 = .ok a → P m'.types a

namespace Run.Tracks

variable {r : Registry} {m : Memory} {P : Array Ty → α → Prop} {Q : Array Ty → β → Prop}

theorem of_reads {x : Run ε α} (reads : x.Reads)
    (holds : ∀ a, (x m.heap).1 = .ok a → P m.types a) : x.Tracks r m P :=
  ⟨m, .refl, reads m.heap, holds⟩

theorem of_act {x : Run ε α} {types : Array Ty} (act : Memory.Act r m ⟨(x m.heap).2, types⟩)
    (holds : ∀ a, (x m.heap).1 = .ok a → P types a) : x.Tracks r m P :=
  ⟨_, .single act, rfl, holds⟩

theorem pure {a : α} (holds : P m.types a) : (Pure.pure a : Run ε α).Tracks r m P :=
  of_reads (.pure a) fun b same => by
    cases same
    exact holds

theorem throw (e : ε) : (MonadExcept.throw e : Run ε α).Tracks r m P :=
  of_reads (.throw e) fun a same => by cases same

theorem ofExcept {x : Except ε α} (holds : ∀ a, x = .ok a → P m.types a) :
    (Run.ofExcept x).Tracks r m P :=
  of_reads (.ofExcept x) holds

theorem get :
    (MonadState.get : Run ε Heap).Tracks r m fun types h => h = m.heap ∧ types = m.types :=
  of_reads .get fun _ same => ⟨(Except.ok.inj same).symm, rfl⟩

/-- What follows a computation may rely on its result, and on all that was there before. -/
theorem bind {x : Run ε α} {f : α → Run ε β} (genuine : m.Genuine) (first : x.Tracks r m P)
    (next : ∀ m' a, m'.Genuine → m.Keeps m' → P m'.types a → (f a).Tracks r m' Q) :
    (x >>= f).Tracks r m Q := by
  obtain ⟨m', acts, left, holds⟩ := first
  unfold Tracks
  rw [Run.bind_apply]
  cases result : x m.heap with
  | mk outcome after =>
    rw [result] at left holds
    cases outcome with
    | error e => exact ⟨m', acts, left, fun a same => by cases same⟩
    | ok a =>
      obtain ⟨m'', acts', left', holds'⟩ :=
        next m' a (genuine.acts acts) acts.keeps (holds a rfl)
      have same : after = m'.heap := left
      subst same
      exact ⟨m'', acts.trans acts', left', holds'⟩

end Run.Tracks

structure Frame.Genuine (frame : Frame) (types : Array Ty) : Prop where
  this : frame.this.Genuine types
  args : ∀ s ∈ frame.args, s.Genuine types

/-- Whether the bodies of members are made of acts: on a genuine store and frame they do nothing
else, and a method gives a genuine slot. -/
structure Bodies.Built (r : Registry) (b : Bodies) : Prop where
  method : ∀ (m : Memory) (callee : Method) (frame : Frame), m.Genuine →
    frame.Genuine m.types → (b.method callee frame).Tracks r m Slot.Genuine
  constructor : ∀ (m : Memory) (c : Constructor) (frame : Frame), m.Genuine →
    frame.Genuine m.types → (b.constructor c frame).Tracks r m fun _ _ => True

/-- A cast gives the value itself. -/
theorem Value.eq_of_cast {r : Registry} {t : Ty} {v w : Value} (cast : v.cast r t = .ok w) :
    w = v := by
  rcases v.cast_eq_ok_or_error r t with accepted | rejected
  · exact Except.ok.inj (cast.symm.trans accepted)
  · exact absurd (cast.symm.trans rejected) (by simp)

theorem Value.Genuine.cast_tracks {r : Registry} {m : Memory} {v : Value}
    (genuine : v.Genuine m.types) (t : Ty) :
    (Run.ofExcept ((v.cast r t).map .ref) : RunM Slot).Tracks r m Slot.Genuine := by
  refine .ofExcept fun s same => ?_
  cases cast : v.cast r t with
  | error e =>
    rw [cast] at same
    cases same
  | ok w =>
    rw [cast] at same
    cases same
    exact .ref (Value.eq_of_cast cast ▸ genuine)

theorem mem_of_elementAt {items : Array Value} {index : Int32} {v : Value}
    (found : elementAt items index = .ok v) : v ∈ items := by
  simp only [elementAt] at found
  split at found
  · next w taken =>
    cases found
    split at taken
    · cases taken
    · exact Array.mem_of_getElem? taken
  · cases found

/-- A receiver passes a policy as it is. -/
theorem Invoker.Policy.eq_of_pass {r : Registry} {policy : Policy} {declaring : Ty} {v w : Value}
    (passed : policy.pass r declaring v = .ok w) : w = v := by
  cases policy with
  | trusted => exact (Except.ok.inj passed).symm
  | checked => exact Value.eq_of_cast passed

theorem Memory.store_tracks {r : Registry} {m : Memory} {f : Field} (declared : r.Declares f)
    {target : Value} (genuine : target.Genuine m.types) {s : Slot} (stored : s.Genuine m.types) :
    (f.store r target s).Tracks r m fun _ _ => True :=
  .of_act (.store f target s declared genuine stored) fun _ _ => True.intro

section

variable {r : Registry} {m : Memory} (genuine : m.Genuine)

include genuine

theorem Memory.Genuine.slots (o : ObjectRef) : ∀ s ∈ m.heap.slots o, s.Genuine m.types := by
  unfold Heap.slots Heap.slots?
  intro s mem
  cases found : m.heap.objects[o.address]? with
  | none =>
    rw [found] at mem
    cases mem
  | some slots =>
    rw [found] at mem
    exact genuine.objects _ slots found s mem

theorem Memory.Genuine.copyOut (o : ObjectRef) : (m.heap.copyOut o).Genuine m.types :=
  .struct o.type (genuine.slots o)

theorem Memory.Genuine.alloc_tracks (t : Ty) :
    (modifyGet fun h => h.alloc t (r.initialSlots t) : RunM ObjectRef).Tracks r m
      fun types o => (Value.object o).Genuine types := by
  refine .of_act (.alloc t) fun o same => ?_
  cases same
  have last : m.heap.objects.size = m.types.size := genuine.size.symm
  simp [Value.Genuine, last]

theorem Memory.Genuine.load_tracks {f : Field} (declared : r.Declares f) (target : Value) :
    (f.load r target).Tracks r m Slot.Genuine := by
  cases storage : f.storage with
  | static =>
    have read : Memory.Act r m ⟨(f.load r target m.heap).2, m.types⟩ := by
      rw [Field.load_static storage]
      exact .readStatic f declared
    refine .of_act read fun s same => ?_
    have result : f.load r target m.heap = (.ok s, (f.load r target m.heap).2) := Prod.ext same rfl
    rw [Field.of_load_static storage result]
    cases found : m.heap.static? f with
    | none => exact r.initial_genuine f.type m.types
    | some s => exact genuine.statics f s found
  | slot index =>
    have reads : (f.load r target).Reads := by
      rw [Field.load_slot storage]
      refine .bind (.ofExcept _) fun o => .bind .get fun h => ?_
      split
      · exact .pure _
      · exact .throw _
    refine .of_reads reads fun s same => ?_
    have result : f.load r target m.heap = (.ok s, (f.load r target m.heap).2) := Prod.ext same rfl
    obtain ⟨o, _, found⟩ := Field.of_load_slot storage result
    exact genuine.slots o s (List.mem_of_getElem? found)

theorem Memory.Genuine.unbox_tracks {v : Value} (genuine' : v.Genuine m.types) (t : Ty) :
    (v.unbox r t).Tracks r m Slot.Genuine := by
  cases t with
  | void => exact .throw _
  | primitive p => cases p <;> cases v <;> first | exact .pure (by constructor) | exact .throw _
  | structType id =>
    cases v with
    | object o =>
      unfold Value.unbox
      by_cases same : o.type = .structType id
      · simp only [if_pos same]
        refine .bind genuine .get fun m' h genuine' _ found => .pure ?_
        rw [found.1]
        exact found.2 ▸ genuine.copyOut o
      · simp only [if_neg same]
        exact .throw _
    | _ => exact .throw _
  | _ => exact genuine'.cast_tracks _

/-- The results of all computations are genuine, whatever the later ones have allocated. -/
theorem Memory.Genuine.mapM_tracks {f : α → RunM Slot} (list : List α)
    (each : ∀ a ∈ list, ∀ m', m'.Genuine → m.Keeps m' → (f a).Tracks r m' Slot.Genuine) :
    (list.mapM f).Tracks r m fun types slots => ∀ s ∈ slots, s.Genuine types := by
  induction list generalizing m with
  | nil => exact .pure fun _ mem => absurd mem List.not_mem_nil
  | cons a rest ih =>
    rw [List.mapM_cons]
    refine .bind genuine (each a List.mem_cons_self m genuine (.refl m))
      fun m' s genuine' keeps first => ?_
    have later := ih genuine' fun b mem m'' genuine'' keeps' =>
      each b (List.mem_cons_of_mem a mem) m'' genuine'' (keeps.trans keeps')
    refine .bind genuine' later fun m'' slots genuine'' keeps' others => .pure fun t mem => ?_
    rcases List.mem_cons.mp mem with rfl | mem
    · exact first.keeps keeps'
    · exact others t mem

theorem Memory.Genuine.unboxArguments_tracks (member : String) (params : List Param)
    {args : Array Value} (each : ∀ v ∈ args, v.Genuine m.types) :
    (unboxArguments r member params args).Tracks r m
      fun types slots => ∀ s ∈ slots, s.Genuine types := by
  by_cases count : args.size = params.length
  · rw [unboxArguments_of_eq r member count]
    refine .bind genuine (genuine.mapM_tracks _ fun pair mem m' genuine' keeps => ?_)
      fun m' slots _ _ converted => .pure fun s mem => converted s (List.mem_toArray.mp mem)
    have passed := each pair.2 (Array.mem_toList_iff.mp (List.of_mem_zip mem).2)
    exact genuine'.unbox_tracks (passed.keeps keeps) pair.1.type
  · rw [unboxArguments_of_ne r member count]
    exact .throw _

theorem Memory.Genuine.box_tracks {s : Slot} (genuine' : s.Genuine m.types) (t : Ty) :
    (s.box r t).Tracks r m Value.Genuine := by
  unfold Slot.box
  split
  case h_6 id u fields =>
    by_cases same : u = .structType id
    · simp only [if_pos same]
      subst same
      cases genuine' with
      | struct _ each =>
        refine .of_act (.box (.structType id) fields rfl each) fun v same => ?_
        cases same
        have last : m.heap.objects.size = m.types.size := genuine.size.symm
        simp [Value.Genuine, Heap.alloc, last]
    · simp only [if_neg same]
      exact .throw _
  case h_7 v =>
    split
    · exact .pure genuine'.value
    · exact .throw _
  all_goals first | exact .pure True.intro | exact .throw _

end

section

variable {p : Program} {m : Memory} (genuine : m.Genuine)

include genuine

theorem Memory.Genuine.construct_tracks (built : p.bodies.Built p.registry) (c : Constructor)
    {slots : Array Slot} (each : ∀ s ∈ slots, s.Genuine m.types) :
    (c.construct p slots).Tracks p.registry m Slot.Genuine := by
  by_cases count : slots.size = c.params.length
  · rw [Constructor.construct_of_eq p count]
    refine .bind genuine (genuine.alloc_tracks c.declaring) fun m' o genuine' keeps made => ?_
    have frame : Frame.Genuine ⟨.object o, slots⟩ m'.types :=
      ⟨made, fun s mem => (each s mem).keeps keeps⟩
    refine .bind genuine' (built.constructor m' c _ genuine' frame)
      fun m'' _ genuine'' keeps' _ => ?_
    split
    · refine .bind genuine'' .get fun m h _ _ found => .pure ?_
      rw [found.1]
      exact found.2 ▸ genuine''.copyOut o
    · exact .pure (.ref (made.keeps keeps'))
  · rw [Constructor.construct_of_ne p count]
    exact .throw _

theorem Memory.Genuine.call_tracks (built : p.bodies.Built p.registry) (callee : Method)
    {this : Value} (genuine' : this.Genuine m.types) {slots : Array Slot}
    (each : ∀ s ∈ slots, s.Genuine m.types) :
    (callee.call p this slots).Tracks p.registry m Slot.Genuine := by
  unfold Method.call
  split
  · exact .throw _
  · split
    · exact .throw _
    · exact built.method m callee _ genuine ⟨genuine', each⟩

theorem Memory.Genuine.callVirtual_tracks (built : p.bodies.Built p.registry) (callee : Method)
    {this : Value} (genuine' : this.Genuine m.types) {slots : Array Slot}
    (each : ∀ s ∈ slots, s.Genuine m.types) :
    (callee.callVirtual p this slots).Tracks p.registry m Slot.Genuine := by
  unfold Method.callVirtual
  split
  · exact .throw _
  · exact genuine.call_tracks built _ genuine' each

theorem Memory.Genuine.enter_tracks (built : p.bodies.Built p.registry) (callee : Method)
    (policy : Policy) {this : Value} (genuine' : this.Genuine m.types) {slots : List Slot}
    (each : ∀ s ∈ slots, s.Genuine m.types) :
    (callee.enter p policy this slots).Tracks p.registry m Slot.Genuine := by
  have each' : ∀ s ∈ slots.toArray, s.Genuine m.types :=
    fun s mem => each s (List.mem_toArray.mp mem)
  unfold Method.enter
  split
  · have null : Value.null.Genuine m.types := True.intro
    exact genuine.call_tracks built callee null each'
  · have passed : (Run.ofExcept (policy.pass p.registry callee.declaring this) :
        RunM Value).Tracks p.registry m Value.Genuine :=
      .ofExcept fun v same => Policy.eq_of_pass same ▸ genuine'
    refine .bind genuine passed fun m' receiver genuine'' keeps received => ?_
    exact genuine''.callVirtual_tracks built callee received fun s mem => (each' s mem).keeps keeps

theorem Memory.Genuine.invoke_tracks (built : p.bodies.Built p.registry) (callee : Method)
    {this : Value} (genuine' : this.Genuine m.types) {args : Array Value}
    (each : ∀ v ∈ args, v.Genuine m.types) :
    (callee.invoke p this args).Tracks p.registry m Value.Genuine := by
  rw [Method.invoke_eq]
  refine .bind genuine (genuine.unboxArguments_tracks _ callee.params each)
    fun m₁ slots genuine₁ keeps converted => ?_
  have slots' : ∀ s ∈ slots.toList, s.Genuine m₁.types :=
    fun s mem => converted s (Array.mem_toList_iff.mp mem)
  refine .bind genuine₁ (genuine₁.enter_tracks built callee .checked (genuine'.keeps keeps) slots')
    fun m₂ result genuine₂ _ given => ?_
  split
  · exact .pure True.intro
  · exact genuine₂.box_tracks given callee.returns

theorem Memory.Genuine.create_tracks (built : p.bodies.Built p.registry) (c : Constructor)
    {args : Array Value} (each : ∀ v ∈ args, v.Genuine m.types) :
    (c.invoke p args).Tracks p.registry m Value.Genuine := by
  unfold Constructor.invoke
  refine .bind genuine (genuine.unboxArguments_tracks _ c.params each)
    fun m₁ slots genuine₁ _ converted => ?_
  refine .bind genuine₁ (genuine₁.construct_tracks built c converted)
    fun m₂ created genuine₂ _ made => ?_
  exact genuine₂.box_tracks made c.declaring

theorem Memory.Genuine.read_tracks {f : Field} (declared : p.registry.Declares f) (target : Value) :
    (f.read p.registry target).Tracks p.registry m Value.Genuine :=
  .bind genuine (genuine.load_tracks declared target) fun _ _ genuine' _ loaded =>
    genuine'.box_tracks loaded f.type

theorem Memory.Genuine.write_tracks {f : Field} (declared : p.registry.Declares f)
    {target value : Value} (genuine' : target.Genuine m.types) (given : value.Genuine m.types) :
    (f.write p.registry target value).Tracks p.registry m fun _ _ => True :=
  .bind genuine (genuine.unbox_tracks given f.type) fun _ _ _ keeps converted =>
    Memory.store_tracks declared (genuine'.keeps keeps) converted

end

namespace Run.Tracks

variable {r : Registry} {m : Memory} {P : Array Ty → α → Prop}

/-- Which kind of error a computation ends in does not count. -/
theorem mapError {x : Run ε α} (f : ε → δ) (tracks : x.Tracks r m P) :
    (x.mapError f).Tracks r m P := by
  obtain ⟨m', acts, left, holds⟩ := tracks
  refine ⟨m', acts, ?_, fun a same => holds a ?_⟩
  · rw [← left, Run.mapError]
    cases x m.heap with
    | mk outcome after => cases outcome <;> rfl
  · rw [Run.mapError] at same
    cases result : x m.heap with
    | mk outcome after =>
      rw [result] at same
      cases outcome with
      | error e => cases same
      | ok b =>
        cases same
        rfl

end Run.Tracks

section

variable {r : Registry} {m : Memory} (genuine : m.Genuine)

include genuine

theorem Memory.Genuine.handOver_tracks {s : Slot} (genuine' : s.Genuine m.types) (t : Ty) :
    (s.handOver r t).Tracks r m Value.Genuine := by
  unfold Slot.handOver
  split
  · exact (genuine.box_tracks genuine' t).mapError _
  · cases genuine' with
    | ref held => exact .pure held
    | _ => exact .throw _

theorem Memory.Genuine.coerce_tracks {v : Value} (genuine' : v.Genuine m.types) (t : Ty) :
    (v.coerce r t).Tracks r m Slot.Genuine := by
  unfold Value.coerce
  split
  · exact genuine.unbox_tracks genuine' t
  · exact genuine'.cast_tracks t

theorem Memory.Genuine.convertFrom_tracks {args : Array Value}
    (each : ∀ v ∈ args, v.Genuine m.types) (i : Nat) (params : List Param) :
    (convertFrom r args i params).Tracks r m fun types slots => ∀ s ∈ slots, s.Genuine types := by
  induction params generalizing m i with
  | nil => exact .pure fun _ mem => absurd mem List.not_mem_nil
  | cons q rest ih =>
    have element : (Run.ofExcept (elementAt args (Int32.ofNat i)) : RunM Value).Tracks r m
        Value.Genuine :=
      .ofExcept fun v same => each v (mem_of_elementAt same)
    refine .bind genuine element fun m₁ v genuine₁ keeps₁ taken => ?_
    refine .bind genuine₁ (genuine₁.coerce_tracks taken q.type) fun m₂ s genuine₂ keeps₂ first => ?_
    have each₂ : ∀ v ∈ args, v.Genuine m₂.types :=
      fun v mem => (each v mem).keeps (keeps₁.trans keeps₂)
    refine .bind genuine₂ (ih genuine₂ each₂ (i + 1)) fun m₃ slots _ keeps₃ others => ?_
    refine .pure fun t mem => ?_
    rcases List.mem_cons.mp mem with rfl | mem
    · exact first.keeps keeps₃
    · exact others t mem

end

theorem Field.eq_of_pass {r : Registry} {f : Field} {policy : Policy} {v w : Value}
    (passed : f.pass r policy v = .ok w) : w = v := by
  unfold Field.pass at passed
  split at passed
  · exact (Except.ok.inj passed).symm
  · exact Policy.eq_of_pass passed

theorem Field.pass_tracks {r : Registry} {m : Memory} (f : Field) (policy : Policy)
    {target : Value} (genuine : target.Genuine m.types) :
    (Run.ofExcept (f.pass r policy target) : RunM Value).Tracks r m Value.Genuine :=
  .ofExcept fun _ same => Field.eq_of_pass same ▸ genuine

section

variable {p : Program} {m : Memory} (genuine : m.Genuine)

include genuine

theorem ConstructorInvoker.answer_tracks (built : p.bodies.Built p.registry) (c : Constructor)
    {args : Array Value} (each : ∀ v ∈ args, v.Genuine m.types) :
    (answer p c args).Tracks p.registry m Value.Genuine := by
  refine .bind genuine ((genuine.convertFrom_tracks each 0 c.params).mapError _)
    fun m₁ slots genuine₁ _ converted => ?_
  have slots' : ∀ s ∈ slots.toArray, s.Genuine m₁.types :=
    fun s mem => converted s (List.mem_toArray.mp mem)
  refine .bind genuine₁ ((genuine₁.construct_tracks built c slots').mapError _)
    fun m₂ created genuine₂ _ made => ?_
  exact genuine₂.handOver_tracks made c.declaring

theorem MethodInvoker.answer_tracks (built : p.bodies.Built p.registry) (callee : Method)
    (policy : Policy) {this : Value} (genuine' : this.Genuine m.types) {args : Array Value}
    (each : ∀ v ∈ args, v.Genuine m.types) :
    (answer p callee policy this args).Tracks p.registry m Value.Genuine := by
  refine .bind genuine ((genuine.convertFrom_tracks each 0 callee.params).mapError _)
    fun m₁ slots genuine₁ keeps converted => ?_
  have entered := genuine₁.enter_tracks built callee policy (genuine'.keeps keeps) converted
  refine .bind genuine₁ (entered.mapError _) fun m₂ result genuine₂ _ given => ?_
  split
  · exact .pure True.intro
  · exact genuine₂.handOver_tracks given callee.returns

theorem FieldReader.answer_tracks {f : Field} (declared : p.registry.Declares f) (policy : Policy)
    (target : Value) : (answer p f policy target).Tracks p.registry m Value.Genuine := by
  have passed : (Run.ofExcept (f.pass p.registry policy target) : RunM Value).Tracks p.registry m
      fun _ _ => True :=
    .ofExcept fun _ _ => True.intro
  refine .bind genuine (passed.mapError _) fun m₁ receiver genuine₁ _ _ => ?_
  refine .bind genuine₁ ((genuine₁.load_tracks declared receiver).mapError _)
    fun m₂ s genuine₂ _ loaded => ?_
  exact genuine₂.handOver_tracks loaded f.type

theorem FieldWriter.answer_tracks {f : Field} (declared : p.registry.Declares f) (policy : Policy)
    {target value : Value} (genuine' : target.Genuine m.types) (given : value.Genuine m.types) :
    (answer p f policy target value).Tracks p.registry m fun _ _ => True := by
  refine .bind genuine (f.pass_tracks policy genuine')
    fun m₁ receiver genuine₁ keeps passed => ?_
  refine .bind genuine₁ (genuine₁.coerce_tracks (given.keeps keeps) f.type)
    fun m₂ s _ keeps' converted => ?_
  exact Memory.store_tracks declared (passed.keeps keeps') converted

end

/-- The making of an instance, or the use of a member in any of the ways that there are. -/
inductive Operation
  | alloc (t : Ty)
  | construct (c : Constructor) (slots : Array Slot)
  | create (c : Constructor) (args : Array Value)
  | call (callee : Method) (this : Value) (slots : Array Slot)
  | callVirtual (callee : Method) (this : Value) (slots : Array Slot)
  | invoke (callee : Method) (this : Value) (args : Array Value)
  | load (f : Field) (target : Value)
  | read (f : Field) (target : Value)
  | store (f : Field) (target : Value) (s : Slot)
  | write (f : Field) (target value : Value)
  | runConstructor (i : ConstructorInvoker) (args : Array Value)
  | runMethod (i : MethodInvoker) (this : Value) (args : Array Value)
  | runReader (i : FieldReader) (target : Value)
  | runWriter (i : FieldWriter) (target value : Value)

namespace Operation

/-- What an operation gives is a slot; where there is nothing to give, it is null. -/
def run (p : Program) : Operation → RunM Slot
  | alloc t => do
    let o ← modifyGet fun h => h.alloc t (p.registry.initialSlots t)
    return .ref (.object o)
  | construct c slots => c.construct p slots
  | create c args => do return .ref (← c.invoke p args)
  | call callee this slots => callee.call p this slots
  | callVirtual callee this slots => callee.callVirtual p this slots
  | invoke callee this args => do return .ref (← callee.invoke p this args)
  | load f target => f.load p.registry target
  | read f target => do return .ref (← f.read p.registry target)
  | store f target s => do
    f.store p.registry target s
    return .null
  | write f target value => do
    f.write p.registry target value
    return .null
  | runConstructor i args => do return .ref (← i.invoke p args)
  | runMethod i this args => do return .ref (← i.invoke p this args)
  | runReader i target => do return .ref (← i.get p target)
  | runWriter i target value => do
    i.set p target value
    return .null

/-- Operations are done with references that are genuine, on fields that are declared, and with
invokers that have been compiled. -/
def Legal (r : Registry) (types : Array Ty) : Operation → Prop
  | alloc _ => True
  | construct _ slots => ∀ s ∈ slots, s.Genuine types
  | create _ args => ∀ v ∈ args, v.Genuine types
  | call _ this slots | callVirtual _ this slots =>
    this.Genuine types ∧ ∀ s ∈ slots, s.Genuine types
  | invoke _ this args => this.Genuine types ∧ ∀ v ∈ args, v.Genuine types
  | load f _ | read f _ => r.Declares f
  | store f target s => r.Declares f ∧ target.Genuine types ∧ s.Genuine types
  | write f target value => r.Declares f ∧ target.Genuine types ∧ value.Genuine types
  | runConstructor i args =>
    (∃ r', ConstructorInvoker.compile r' i.constructor = .ok i) ∧ ∀ v ∈ args, v.Genuine types
  | runMethod i this args =>
    (∃ r' policy, MethodInvoker.compile r' i.method policy = .ok i) ∧
      this.Genuine types ∧ ∀ v ∈ args, v.Genuine types
  | runReader i _ =>
    (∃ r' policy, FieldReader.compile r' i.field policy = .ok i) ∧ r.Declares i.field
  | runWriter i target value =>
    (∃ r' policy, FieldWriter.compile r' i.field policy = .ok i) ∧
      r.Declares i.field ∧ target.Genuine types ∧ value.Genuine types

section

variable {p : Program} {m : Memory} (genuine : m.Genuine)

include genuine

theorem boxed_tracks {r : Registry} {x : RunM Value} (tracks : x.Tracks r m Value.Genuine) :
    (x >>= fun v => pure (.ref v) : RunM Slot).Tracks r m Slot.Genuine :=
  .bind genuine tracks fun _ _ _ _ given => .pure (.ref given)

theorem done_tracks {r : Registry} {x : RunM Unit} (tracks : x.Tracks r m fun _ _ => True) :
    (x >>= fun _ => pure .null : RunM Slot).Tracks r m Slot.Genuine :=
  .bind genuine tracks fun m' _ _ _ _ => .pure (.null m'.types)

/-- Every operation is a sequence of acts. -/
theorem run_tracks (built : p.bodies.Built p.registry) {o : Operation}
    (legal : o.Legal p.registry m.types) : (o.run p).Tracks p.registry m Slot.Genuine := by
  cases o with
  | alloc t =>
    exact .bind genuine (genuine.alloc_tracks t) fun _ _ _ _ made => .pure (.ref made)
  | construct c slots => exact genuine.construct_tracks built c legal
  | create c args => exact boxed_tracks genuine (genuine.create_tracks built c legal)
  | call callee this slots => exact genuine.call_tracks built callee legal.1 legal.2
  | callVirtual callee this slots => exact genuine.callVirtual_tracks built callee legal.1 legal.2
  | invoke callee this args =>
    exact boxed_tracks genuine (genuine.invoke_tracks built callee legal.1 legal.2)
  | load f target => exact genuine.load_tracks legal target
  | read f target => exact boxed_tracks genuine (genuine.read_tracks legal target)
  | store f target s =>
    obtain ⟨declared, target', stored⟩ := legal
    exact done_tracks genuine (Memory.store_tracks declared target' stored)
  | write f target value =>
    obtain ⟨declared, target', given⟩ := legal
    exact done_tracks genuine (genuine.write_tracks declared target' given)
  | runConstructor i args =>
    obtain ⟨⟨r', compiled⟩, each⟩ := legal
    obtain ⟨made, same, few⟩ := ConstructorInvoker.of_compile compiled
    refine boxed_tracks genuine ?_
    rw [same, ConstructorInvoker.invoke_eq_answer p _ made few]
    exact (ConstructorInvoker.answer_tracks genuine built _ each).mapError _
  | runMethod i this args =>
    obtain ⟨⟨r', policy, compiled⟩, this', each⟩ := legal
    obtain ⟨made, same, few⟩ := MethodInvoker.of_compile compiled
    refine boxed_tracks genuine ?_
    rw [same, MethodInvoker.invoke_eq_answer p _ policy made few]
    exact (MethodInvoker.answer_tracks genuine built _ policy this' each).mapError _
  | runReader i target =>
    obtain ⟨⟨r', policy, compiled⟩, declared⟩ := legal
    obtain ⟨made, same⟩ := FieldReader.of_compile compiled
    refine boxed_tracks genuine ?_
    rw [same, FieldReader.get_eq_answer p _ policy made]
    exact (FieldReader.answer_tracks genuine declared policy target).mapError _
  | runWriter i target value =>
    obtain ⟨⟨r', policy, compiled⟩, declared, target', given⟩ := legal
    obtain ⟨made, same⟩ := FieldWriter.of_compile compiled
    refine done_tracks genuine ?_
    rw [same, FieldWriter.set_eq_answer p _ policy made]
    exact FieldWriter.answer_tracks genuine declared policy target' given

end

end Operation

end MemberAccess
