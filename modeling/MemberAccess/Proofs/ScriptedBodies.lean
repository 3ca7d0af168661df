import MemberAccess.Host
import MemberAccess.Proofs.Operations

/-!
Bodies that are scripts. An expression does acts only, as long as the objects that it refers to are
those of its frame, so bodies that are expressions may call each other to any depth.
-/

namespace MemberAccess

namespace Registry

/-- What lookup finds has been declared. -/
theorem Sound.declares_of_mem_fields {r : Registry} (sound : r.Sound) {t : Ty} {f : Field}
    (mem : f ∈ r.fields t) : r.Declares f := by
  unfold Registry.fields Registry.members Registry.members? at mem
  cases found : r.decl? t with
  | none =>
    rw [found] at mem
    cases mem
  | some d =>
    rw [found, Option.bind_some] at mem
    cases table : d.members? with
    | none =>
      rw [table] at mem
      cases mem
    | some members =>
      rw [table, Option.getD_some] at mem
      obtain ⟨id, _, found⟩ := Option.bind_eq_some_iff.mp found
      have declared := sound id d found
      have fields : f ∈ d.fields := by
        rw [TypeDecl.fields, TypeDecl.members?_eq_some.mp table]
        exact mem
      have own := (declared.laidOut (declared.founded members table)).declaring f fields
      exact ⟨d, own ▸ decl?_typeAt found, fields⟩

theorem Sound.declares_of_field? {r : Registry} (sound : r.Sound) {t : Ty} {name : String}
    {f : Field} (found : r.field? t name = some f) : r.Declares f := by
  obtain ⟨s, _, hit⟩ := List.exists_of_findSome?_eq_some found
  obtain ⟨members, table, hit⟩ := Option.bind_eq_some_iff.mp hit
  obtain ⟨i, _, hit⟩ := Option.bind_eq_some_iff.mp hit
  refine sound.declares_of_mem_fields (t := s) ?_
  rw [Registry.fields, Registry.members, table]
  exact List.mem_of_getElem? hit

end Registry

namespace MemberRef

/-- Only a field that is named by its descriptor could be one that is not declared. -/
def Declared (r : Registry) : MemberRef Field → Prop
  | known f => r.Declares f
  | _ => True

theorem Declared.declares {r : Registry} (sound : r.Sound) {ref : MemberRef Field}
    (declared : ref.Declared r) {f : Field} (found : ref.field? r = some f) : r.Declares f := by
  cases ref with
  | known g =>
    cases found
    exact declared
  | nth t i => exact sound.declares_of_mem_fields (List.mem_of_getElem? found)
  | named t name => exact sound.declares_of_field? found
  | overload t name types => cases found
  | typed t types => cases found

end MemberRef

theorem Frame.Genuine.keeps {m m' : Memory} {frame : Frame} (genuine : frame.Genuine m.types)
    (keeps : m.Keeps m') : frame.Genuine m'.types :=
  ⟨genuine.this.keeps keeps, fun s mem => (genuine.args s mem).keeps keeps⟩

theorem Frame.Genuine.of_arg {frame : Frame} {types : Array Ty} (genuine : frame.Genuine types)
    {i : Nat} {s : Slot} (taken : frame.arg i = .ok s) : s.Genuine types := by
  unfold Frame.arg at taken
  cases found : frame.args[i]? with
  | none =>
    rw [found] at taken
    cases taken
  | some t =>
    rw [found] at taken
    cases taken
    exact genuine.args s (Array.mem_of_getElem? found)

theorem Frame.of_receiverObject {r : Registry} {frame : Frame} {o : ObjectRef}
    (own : frame.receiverObject r = .ok o) : frame.this = .object o := by
  unfold Frame.receiverObject at own
  cases this : frame.this <;> rw [this] at own <;> cases own
  rfl

theorem Memory.Genuine.loadUnboxed_tracks {r : Registry} {m : Memory} (genuine : m.Genuine)
    {f : Field} (declared : r.Declares f) (t : Ty) {fields : List Slot}
    (each : ∀ s ∈ fields, s.Genuine m.types) :
    (f.loadUnboxed r t fields).Tracks r m Slot.Genuine := by
  have load := genuine.load_tracks declared .null
  unfold Field.load at load
  unfold Field.loadUnboxed
  cases storage : f.storage with
  | static =>
    rw [storage] at load
    exact load
  | slot index =>
    by_cases same : t = f.declaring
    · simp only [if_pos same]
      cases found : fields[index]? with
      | some s => exact .pure (each s (List.mem_of_getElem? found))
      | none => exact .throw _
    · simp only [if_neg same]
      exact .throw _

theorem Memory.Genuine.items {m : Memory} (genuine : m.Genuine) (a : ArrayRef) :
    ∀ v ∈ m.heap.items a, v.Genuine m.types := by
  unfold Heap.items
  intro v mem
  cases found : m.heap.arrays[a.address]? with
  | none =>
    rw [found, Option.getD_none] at mem
    exact absurd mem (Array.not_mem_empty v)
  | some items =>
    rw [found] at mem
    exact genuine.arrays _ items found v mem

theorem Memory.Genuine.get_tracks {r : Registry} {m : Memory} (genuine : m.Genuine)
    (a : ArrayRef) (i : Int32) : (a.get i).Tracks r m Value.Genuine :=
  .of_reads (fun _ => rfl) fun v taken => genuine.items a v (mem_of_elementAt taken)

theorem ArrayRef.set_tracks {r : Registry} {m : Memory} (a : ArrayRef) (i : Int32) {v : Value}
    (genuine : v.Genuine m.types) : (a.set i v).Tracks r m fun _ _ => True := by
  by_cases inside : 0 ≤ i.toInt ∧ i.toInt.toNat < (m.heap.items a).size
  · have act : Memory.Act r m ⟨(a.set i v m.heap).2, m.types⟩ := by
      simp only [ArrayRef.set, Run.modifyGet_apply, if_pos inside]
      exact .setItem a i.toInt.toNat v genuine
    exact .of_act act fun _ _ => True.intro
  · refine ⟨m, .refl, ?_, fun _ _ => True.intro⟩
    simp only [ArrayRef.set, Run.modifyGet_apply, if_neg inside]

namespace Script

/-- Views look at slots and make no references. -/
theorem View.genuine_of_read {r : Registry} {view : View} {s s' : Slot} {types : Array Ty}
    (genuine : s.Genuine types) (read : view.read r s = .ok s') : s'.Genuine types := by
  cases genuine with
  | @ref v held => cases view <;> cases v <;> cases read <;> exact .ref held
  | _ => cases view <;> cases read <;> constructor

theorem looked_tracks {r : Registry} {m : Memory} (x : Except InvokeError α) :
    (Run.ofExcept x).Tracks r m fun _ _ => True :=
  .ofExcept fun _ _ => True.intro

theorem found_tracks {r : Registry} {m : Memory} (m? : Option α) :
    (Run.ofExcept (found m?)).Tracks r m fun _ a => m? = some a := by
  refine .ofExcept fun a same => ?_
  cases m? with
  | none => cases same
  | some b =>
    cases same
    rfl

section

variable {r : Registry} {m : Memory} (genuine : m.Genuine) {x : RunM Slot}
  (tracks : x.Tracks r m Slot.Genuine) {Q : Array Ty → β → Prop}

include genuine tracks

/-- A result that has to be a reference. -/
theorem bind_value {f : Value → RunM β}
    (next : ∀ m' v, m'.Genuine → m.Keeps m' → v.Genuine m'.types → (f v).Tracks r m' Q) :
    (x >>= fun s => valueOf r s >>= f).Tracks r m Q := by
  refine .bind genuine tracks fun m₁ s genuine₁ keeps₁ held => ?_
  have value : (valueOf r s).Tracks r m₁ Value.Genuine := by
    refine .ofExcept fun v same => ?_
    cases held with
    | ref held =>
      cases same
      exact held
    | _ => cases same
  exact .bind genuine₁ value fun m₂ v genuine₂ keeps₂ => next m₂ v genuine₂ (keeps₁.trans keeps₂)

/-- A result that is looked at only. -/
theorem bind_look {look : Slot → Except InvokeError α} {f : α → RunM β}
    (next : ∀ m' a, m'.Genuine → m.Keeps m' → (f a).Tracks r m' Q) :
    (x >>= fun s => Run.ofExcept (look s) >>= f).Tracks r m Q := by
  refine .bind genuine tracks fun m₁ s genuine₁ keeps₁ _ => ?_
  exact .bind genuine₁ (looked_tracks _) fun m₂ a genuine₂ keeps₂ _ =>
    next m₂ a genuine₂ (keeps₁.trans keeps₂)

/-- Receiver and arguments of a call, with the method looked up when they are there. -/
theorem bind_operands {G : Array Ty → α → Prop}
    (stable : ∀ {m m' : Memory} {a : α}, G m.types a → m.Keeps m' → G m'.types a)
    {xs : RunM (List α)}
    (args : ∀ m', m'.Genuine → m.Keeps m' →
      xs.Tracks r m' fun types list => ∀ a ∈ list, G types a)
    {callee? : Option Method} {f : Value → List α → Method → RunM β}
    (next : ∀ m' v list callee, m'.Genuine → v.Genuine m'.types →
      (∀ a ∈ list.toArray, G m'.types a) → (f v list callee).Tracks r m' Q) :
    (x >>= fun s => valueOf r s >>= fun v => xs >>= fun list =>
      Run.ofExcept (found callee?) >>= fun callee => f v list callee).Tracks r m Q := by
  refine bind_value genuine tracks fun m₁ v genuine₁ keeps₁ this => ?_
  refine .bind genuine₁ (args m₁ genuine₁ keeps₁) fun m₂ list genuine₂ keeps₂ each => ?_
  refine .bind genuine₂ (found_tracks callee?) fun m₃ callee genuine₃ keeps₃ _ => ?_
  have this₃ := this.keeps (keeps₂.trans keeps₃)
  exact next m₃ v list callee genuine₃ this₃
    fun a mem => stable (each a (List.mem_toArray.mp mem)) keeps₃

end

namespace Expr

mutual

/-- Whether an expression refers to no objects of its own, and names declared fields only. -/
def Legal (r : Registry) : Expr → Prop
  | arg _ | receiver | receiverObject | argCount | raise _ => True
  | lit s => s.Genuine #[]
  | load f e | loadUnboxed f e => f.Declared r ∧ Legal r e
  | store f target e => f.Declared r ∧ Legal r target ∧ Legal r e
  | add a b | cat a b | item a b => Legal r a ∧ Legal r b
  | view _ e | length e | box e _ | unbox e _ | cast e _ => Legal r e
  | setItem a b e | ifNull a b e => Legal r a ∧ Legal r b ∧ Legal r e
  | call _ target args | callVirtual _ target args | invoke _ target args =>
    Legal r target ∧ LegalAll r args
  | new _ args | seq args => LegalAll r args

def LegalAll (r : Registry) : List Expr → Prop
  | [] => True
  | e :: rest => Legal r e ∧ LegalAll r rest

end

variable {p : Program} (sound : p.registry.Sound) (built : p.bodies.Built p.registry)

include sound built

-- By recursion on the expression. The bodies that it calls do what `built` says of them, so how
-- deep calls are nested does not matter here.
set_option linter.unusedSectionVars false in
mutual

theorem eval_tracks {m : Memory} {frame : Frame} (genuine : m.Genuine)
    (passed : frame.Genuine m.types) :
    ∀ {e : Expr}, e.Legal p.registry → (e.eval p frame).Tracks p.registry m Slot.Genuine
  | arg i, _ => by
    rw [eval]
    exact .ofExcept fun s same => passed.of_arg same
  | receiver, _ => by
    rw [eval]
    exact .pure (.ref passed.this)
  | receiverObject, _ => by
    rw [eval]
    have own : (Run.ofExcept (frame.receiverObject p.registry) : RunM ObjectRef).Tracks p.registry m
        fun types o => (Value.object o).Genuine types :=
      .ofExcept fun o same => Frame.of_receiverObject same ▸ passed.this
    exact .bind genuine own fun _ _ _ _ held => .pure (.ref held)
  | argCount, _ => by
    rw [eval]
    exact .pure (.int32 _)
  | lit s, legal => by
    rw [eval]
    exact .pure (legal.keeps (m := {}) fun _ _ made => by cases made)
  | load f e, legal => by
    rw [eval]
    refine .bind genuine (found_tracks _) fun m₁ f genuine₁ keeps₁ hit => ?_
    have tracks := eval_tracks genuine₁ (passed.keeps keeps₁) legal.2
    refine bind_value genuine₁ tracks fun m₂ v genuine₂ _ _ => ?_
    exact genuine₂.load_tracks (legal.1.declares sound hit) v
  | loadUnboxed f e, legal => by
    rw [eval]
    refine .bind genuine (eval_tracks genuine passed legal.2) fun m₁ s genuine₁ _ held => ?_
    cases held with
    | struct t each =>
      refine .bind genuine₁ (found_tracks _) fun m₂ f genuine₂ keeps₂ hit => ?_
      exact genuine₂.loadUnboxed_tracks (legal.1.declares sound hit) t
        fun s mem => (each s mem).keeps keeps₂
    | _ => exact .throw _
  | store f target e, legal => by
    rw [eval]
    obtain ⟨declared, target', given⟩ := legal
    refine bind_value genuine (eval_tracks genuine passed target')
      fun m₁ v genuine₁ keeps₁ this => ?_
    refine .bind genuine₁ (eval_tracks genuine₁ (passed.keeps keeps₁) given)
      fun m₂ s genuine₂ keeps₂ stored => ?_
    refine .bind genuine₂ (found_tracks _) fun m₃ f genuine₃ keeps₃ hit => ?_
    have done := Memory.store_tracks (declared.declares sound hit)
      (this.keeps (keeps₂.trans keeps₃)) (stored.keeps keeps₃)
    exact .bind genuine₃ done fun m₄ _ _ _ _ => .pure (.null m₄.types)
  | add a b, legal => by
    rw [eval]
    refine bind_look genuine (eval_tracks genuine passed legal.1) fun m₁ x genuine₁ keeps₁ => ?_
    have second := eval_tracks genuine₁ (passed.keeps keeps₁) legal.2
    refine bind_look genuine₁ second fun m₂ y genuine₂ _ => ?_
    exact .bind genuine₂ (looked_tracks _) fun _ n _ _ _ => .pure (.int32 n)
  | cat a b, legal => by
    rw [eval]
    refine .bind genuine (eval_tracks genuine passed legal.1) fun m₁ s genuine₁ keeps₁ _ => ?_
    refine .bind genuine₁ (eval_tracks genuine₁ (passed.keeps keeps₁) legal.2)
      fun m₂ s' genuine₂ _ _ => ?_
    refine .bind genuine₂ (looked_tracks _) fun m₃ x genuine₃ _ _ => ?_
    exact .bind genuine₃ (looked_tracks _) fun _ _ _ _ _ => .pure (.ref True.intro)
  | view v e, legal => by
    rw [eval]
    refine .bind genuine (eval_tracks genuine passed legal) fun m₁ s _ _ held => ?_
    exact .ofExcept fun s' same => View.genuine_of_read held same
  | length e, legal => by
    rw [eval]
    refine bind_look genuine (eval_tracks (e := e) genuine passed legal) fun m₁ a genuine₁ _ => ?_
    exact .bind genuine₁ .get fun _ _ _ _ _ => .pure (.int32 _)
  | item a i, legal => by
    rw [eval]
    refine bind_look genuine (eval_tracks genuine passed legal.1) fun m₁ a genuine₁ keeps₁ => ?_
    have second := eval_tracks genuine₁ (passed.keeps keeps₁) legal.2
    refine bind_look genuine₁ second fun m₂ i genuine₂ _ => ?_
    exact .bind genuine₂ (genuine₂.get_tracks a i) fun _ _ _ _ held => .pure (.ref held)
  | setItem a i e, legal => by
    rw [eval]
    obtain ⟨array, index, given⟩ := legal
    refine bind_look genuine (eval_tracks genuine passed array) fun m₁ a genuine₁ keeps₁ => ?_
    have passed₁ := passed.keeps keeps₁
    refine bind_look genuine₁ (eval_tracks genuine₁ passed₁ index)
      fun m₂ i genuine₂ keeps₂ => ?_
    have passed₂ := passed₁.keeps keeps₂
    refine bind_value genuine₂ (eval_tracks genuine₂ passed₂ given)
      fun m₃ v genuine₃ _ this => ?_
    exact .bind genuine₃ (ArrayRef.set_tracks a i this) fun _ _ _ _ _ => .pure (.bool _)
  | box e t, legal => by
    rw [eval]
    refine .bind genuine (eval_tracks genuine passed legal) fun m₁ s genuine₁ _ held => ?_
    exact .bind genuine₁ (genuine₁.box_tracks held t) fun _ _ _ _ given => .pure (.ref given)
  | unbox e t, legal => by
    rw [eval]
    exact bind_value genuine (eval_tracks (e := e) genuine passed legal)
      fun m₁ v genuine₁ _ given => genuine₁.unbox_tracks given t
  | cast e t, legal => by
    rw [eval]
    refine bind_value genuine (eval_tracks (e := e) genuine passed legal)
      fun m₁ v genuine₁ _ given => ?_
    have cast : (Run.ofExcept (v.cast p.registry t) : RunM Value).Tracks p.registry m₁
        Value.Genuine :=
      .ofExcept fun w same => Value.eq_of_cast same ▸ given
    exact .bind genuine₁ cast fun _ _ _ _ given => .pure (.ref given)
  | call callee target args, legal => by
    rw [eval]
    refine bind_operands genuine (eval_tracks genuine passed legal.1) Slot.Genuine.keeps
      (fun m₁ genuine₁ keeps₁ => evalAll_tracks genuine₁ (passed.keeps keeps₁) legal.2) ?_
    intro m₂ v slots callee genuine₂ this each
    exact genuine₂.call_tracks built callee this each
  | callVirtual callee target args, legal => by
    rw [eval]
    refine bind_operands genuine (eval_tracks genuine passed legal.1) Slot.Genuine.keeps
      (fun m₁ genuine₁ keeps₁ => evalAll_tracks genuine₁ (passed.keeps keeps₁) legal.2) ?_
    intro m₂ v slots callee genuine₂ this each
    exact genuine₂.callVirtual_tracks built callee this each
  | invoke callee target args, legal => by
    rw [eval]
    refine bind_operands genuine (eval_tracks genuine passed legal.1) Value.Genuine.keeps
      (fun m₁ genuine₁ keeps₁ => evalValues_tracks genuine₁ (passed.keeps keeps₁) legal.2) ?_
    intro m₂ v values callee genuine₂ this each
    have invoked := genuine₂.invoke_tracks built callee this each
    exact .bind genuine₂ invoked fun _ _ _ _ given => .pure (.ref given)
  | new c args, legal => by
    rw [eval]
    refine .bind genuine (found_tracks _) fun m₁ c genuine₁ keeps₁ _ => ?_
    refine .bind genuine₁ (evalAll_tracks genuine₁ (passed.keeps keeps₁) legal)
      fun m₂ slots genuine₂ _ each => ?_
    exact genuine₂.construct_tracks built c fun s mem => each s (List.mem_toArray.mp mem)
  | raise e, _ => by
    rw [eval]
    exact .throw e
  | ifNull e a b, legal => by
    rw [eval]
    obtain ⟨tested, first, second⟩ := legal
    refine bind_value genuine (eval_tracks genuine passed tested)
      fun m₁ v genuine₁ keeps₁ _ => ?_
    have passed₁ := passed.keeps keeps₁
    by_cases null : v.isNull = true
    · rw [if_pos null]
      exact eval_tracks genuine₁ passed₁ first
    · rw [if_neg null]
      exact eval_tracks genuine₁ passed₁ second
  | seq es, legal => by
    rw [eval]
    exact evalSeq_tracks genuine passed legal (.null m.types)

theorem evalAll_tracks {m : Memory} {frame : Frame} (genuine : m.Genuine)
    (passed : frame.Genuine m.types) :
    ∀ {es : List Expr}, LegalAll p.registry es →
      (evalAll p frame es).Tracks p.registry m fun types slots => ∀ s ∈ slots, s.Genuine types
  | [], _ => by
    rw [evalAll]
    exact .pure fun _ mem => absurd mem List.not_mem_nil
  | e :: rest, legal => by
    rw [evalAll]
    refine .bind genuine (eval_tracks genuine passed legal.1) fun m₁ s genuine₁ keeps₁ held => ?_
    refine .bind genuine₁ (evalAll_tracks genuine₁ (passed.keeps keeps₁) legal.2)
      fun m₂ slots _ keeps₂ each => .pure fun t mem => ?_
    rcases List.mem_cons.mp mem with rfl | mem
    · exact held.keeps keeps₂
    · exact each t mem

theorem evalValues_tracks {m : Memory} {frame : Frame} (genuine : m.Genuine)
    (passed : frame.Genuine m.types) :
    ∀ {es : List Expr}, LegalAll p.registry es →
      (evalValues p frame es).Tracks p.registry m
        fun types values => ∀ v ∈ values, v.Genuine types
  | [], _ => by
    rw [evalValues]
    exact .pure fun _ mem => absurd mem List.not_mem_nil
  | e :: rest, legal => by
    rw [evalValues]
    refine bind_value genuine (eval_tracks genuine passed legal.1)
      fun m₁ v genuine₁ keeps₁ held => ?_
    refine .bind genuine₁ (evalValues_tracks genuine₁ (passed.keeps keeps₁) legal.2)
      fun m₂ values _ keeps₂ each => .pure fun w mem => ?_
    rcases List.mem_cons.mp mem with rfl | mem
    · exact held.keeps keeps₂
    · exact each w mem

theorem evalSeq_tracks {m : Memory} {frame : Frame} (genuine : m.Genuine)
    (passed : frame.Genuine m.types) :
    ∀ {es : List Expr}, LegalAll p.registry es → ∀ {last : Slot}, last.Genuine m.types →
      (evalSeq p frame es last).Tracks p.registry m Slot.Genuine
  | [], _, last, held => by
    rw [evalSeq]
    exact .pure held
  | e :: rest, legal, _, _ => by
    rw [evalSeq]
    refine .bind genuine (eval_tracks genuine passed legal.1) fun m₁ s genuine₁ keeps₁ held => ?_
    exact evalSeq_tracks genuine₁ (passed.keeps keeps₁) legal.2 held

end

end Expr

end Script

/-- Whether a body is a legal script, or does acts only in some way of its own. -/
def MemberBody.Built (r : Registry) : MemberBody → Prop
  | native run => ∀ (m : Memory) (frame : Frame), m.Genuine → frame.Genuine m.types →
      (run r frame).Tracks r m Slot.Genuine
  | script e => e.Legal r

theorem MemberBody.Built.run_tracks {p : Program} (sound : p.registry.Sound)
    (bodies : p.bodies.Built p.registry) {body : MemberBody} (built : body.Built p.registry)
    {m : Memory} {frame : Frame} (genuine : m.Genuine) (passed : frame.Genuine m.types) :
    (body.run p frame).Tracks p.registry m Slot.Genuine := by
  cases body with
  | native run => exact built m frame genuine passed
  | script e => exact Script.Expr.eval_tracks sound bodies genuine passed built

structure TypeBodies.Built (r : Registry) (b : TypeBodies) : Prop where
  methods : ∀ body ∈ b.methods, body.Built r
  constructors : ∀ body ∈ b.constructors, body.Built r

theorem TypeBodies.Built.empty (r : Registry) : TypeBodies.Built r {} :=
  ⟨fun _ mem => absurd mem (Array.not_mem_empty _), fun _ mem => absurd mem (Array.not_mem_empty _)⟩

namespace Host

def Built (h : Host) : Prop :=
  ∀ b ∈ h.bodies, b.Built h.registry

theorem Built.bodiesOf {h : Host} (built : h.Built) (t : Ty) :
    (h.bodiesOf t).Built h.registry := by
  unfold Host.bodiesOf
  cases found : t.id?.bind fun id => h.bodies[id]? with
  | none => exact .empty h.registry
  | some b =>
    obtain ⟨id, _, found⟩ := Option.bind_eq_some_iff.mp found
    exact built b (Array.mem_of_getElem? found)

theorem built_bodyOf {r : Registry} {bodies : Array MemberBody}
    (built : ∀ body ∈ bodies, body.Built r) (i : Nat) : (bodyOf bodies[i]?).Built r := by
  cases found : bodies[i]? with
  | none => exact True.intro
  | some body => exact built body (Array.mem_of_getElem? found)

/-- Bodies that call each other are made of acts to any depth, if each of them is by itself. -/
theorem Built.bodiesWithin {h : Host} (sound : h.registry.Sound) (built : h.Built) (depth : Nat) :
    (h.bodiesWithin depth).Built h.registry := by
  induction depth with
  | zero => exact ⟨fun _ _ _ _ _ => .throw _, fun _ _ _ _ _ => .throw _⟩
  | succ depth ih =>
    refine ⟨fun m callee frame genuine passed => ?_, fun m c frame genuine passed => ?_⟩
    · have body := built_bodyOf (built.bodiesOf callee.declaring).methods callee.ordinal
      exact body.run_tracks (p := ⟨h.registry, h.bodiesWithin depth⟩) sound ih genuine passed
    · have body := built_bodyOf (built.bodiesOf c.declaring).constructors c.ordinal
      have tracks :=
        body.run_tracks (p := ⟨h.registry, h.bodiesWithin depth⟩) sound ih genuine passed
      exact .bind genuine tracks fun _ _ _ _ _ => .pure True.intro

end Host

end MemberAccess
