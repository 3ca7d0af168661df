import MemberAccess.Proofs.Dispatch
import MemberAccess.Proofs.EarlyFailures
import MemberAccess.Proofs.Overriding

/-!
Receivers of a type that does not derive from the declaring type of a method. The walk up from such
a type never meets the declaring type, so it goes on to the end, and a virtual method with the same
signature that it comes across is entered in the place of the method that was asked for. Only where
there is none, it is left to that method to reject the receiver.
-/

namespace MemberAccess

open Invoker

namespace Registry

/-- Whether no type on the way up from `runtime` has a virtual method of an instance with the name,
the return type and the parameter types of `m`, provided that `m` is virtual. -/
def Spares (r : Registry) (runtime : Ty) (m : Method) : Prop :=
  m.isVirtual = true → ∀ s ∈ r.chain runtime, ∀ k ∈ r.methods s, ¬ k.Replaces m

/-- Whether `o` is the first such method on the whole way up from `runtime`. -/
structure Diverts (r : Registry) (runtime : Ty) (m o : Method) : Prop where
  isVirtual : m.isVirtual = true
  replaces : o.Replaces m
  nearest : ∃ below above, r.chain runtime = below ++ o.declaring :: above ∧
    ∀ s ∈ below, ∀ k ∈ r.methods s, ¬ k.Replaces m
  first : ∃ before after, r.methods o.declaring = before ++ o :: after ∧
    ∀ k ∈ before, ¬ k.Replaces m

variable {r : Registry} {m : Method} {runtime : Ty}

theorem Diverts.declaring_mem_chain {o : Method} (diverts : r.Diverts runtime m o) :
    o.declaring ∈ r.chain runtime := by
  obtain ⟨below, above, chain, _⟩ := diverts.nearest
  rw [chain]
  exact List.mem_append_right below List.mem_cons_self

theorem Diverts.not_spares {o : Method} (diverts : r.Diverts runtime m o) :
    ¬ r.Spares runtime m := by
  intro spares
  obtain ⟨before, after, methods, _⟩ := diverts.first
  refine spares diverts.isVirtual o.declaring diverts.declaring_mem_chain o ?_ diverts.replaces
  rw [methods]
  exact List.mem_append_right before List.mem_cons_self

/-- What the walk to the end of the chain comes across first is entered instead. -/
theorem diverts_of_findSome? (reached : Reaches {} r) (known : r.knows runtime = true)
    (isVirtual : m.isVirtual = true) {o : Method}
    (found : (r.chain runtime).findSome? (r.override? m) = some o) : r.Diverts runtime m o := by
  obtain ⟨below, s, above, chain, overrides, earlier⟩ := List.findSome?_eq_some_iff.mp found
  obtain ⟨replaces, first⟩ := override?_eq_some.mp overrides
  have mem : s ∈ r.chain runtime := by
    rw [chain]
    exact List.mem_append_right below List.mem_cons_self
  obtain rfl := (owns_of_reaches reached).declaring_of_mem
    ((sound_of_reaches reached).knows_of_mem_chain known mem) (List.mem_of_find?_eq_some overrides)
  refine ⟨isVirtual, replaces, ⟨below, above, chain, ?_⟩, first⟩
  exact fun s mem => override?_eq_none.mp (earlier s mem)

/-- What does not take a type takes none of its ancestors either. -/
theorem Sound.foreign_of_mem_chain (sound : r.Sound) {d s : Ty}
    (foreign : r.assignable d runtime = false) (mem : s ∈ r.chain runtime) :
    r.assignable d s = false := by
  rw [Bool.eq_false_iff] at foreign ⊢
  exact fun taken => foreign (sound.assignable_trans taken (assignable_of_mem_chain mem))

/-- The walk up from a foreign type goes to the end of the chain. -/
theorem takeWhile_chain_of_foreign (foreign : r.assignable m.declaring runtime = false) :
    (r.chain runtime).takeWhile (· != m.declaring) = r.chain runtime := by
  have others : ∀ s ∈ r.chain runtime, (s != m.declaring) = true := by
    intro s mem
    rw [bne_iff_ne]
    rintro rfl
    rw [assignable_of_mem_chain mem] at foreign
    cases foreign
  have whole : (r.chain runtime ++ []).takeWhile (· != m.declaring) = r.chain runtime ++ [] :=
    List.takeWhile_append_of_pos others
  rwa [List.append_nil] at whole

theorem target_cases (reached : Reaches {} r) (known : r.knows runtime = true) {this : Value}
    (isInstance : m.isStatic = false) (hasType : this.runtimeType? = some runtime)
    (foreign : r.assignable m.declaring runtime = false) :
    (r.target m this = m ∧ r.Spares runtime m) ∨
      ∃ o, r.target m this = o ∧ r.Diverts runtime m o ∧
        r.assignable m.declaring o.declaring = false := by
  cases isVirtual : m.isVirtual with
  | false =>
    refine .inl ⟨?_, fun virtual => ?_⟩
    · rw [target, isInstance, isVirtual]
      rfl
    · rw [isVirtual] at virtual
      cases virtual
  | true =>
    have walk : r.target m this = ((r.chain runtime).findSome? (r.override? m)).getD m := by
      rw [target, isInstance, isVirtual, hasType, ← takeWhile_chain_of_foreign foreign]
      rfl
    cases found : (r.chain runtime).findSome? (r.override? m) with
    | none =>
      rw [found] at walk
      refine .inl ⟨walk, fun _ s mem => ?_⟩
      exact override?_eq_none.mp (List.findSome?_eq_none_iff.mp found s mem)
    | some o =>
      rw [found] at walk
      have diverts := diverts_of_findSome? reached known isVirtual found
      exact .inr ⟨o, walk, diverts, (sound_of_reaches reached).foreign_of_mem_chain foreign
        diverts.declaring_mem_chain⟩

end Registry

/-- Bodies that all fail with a text of their method. -/
def Bodies.failing (text : Method → String) : Bodies where
  method m _ := throw (.native (text m))
  constructor _ _ := pure ()

/-- The only method that is entered is one whose failure shows. -/
theorem EntersOnly.eq_of_fails {m o : Method} {call : Bodies → RunM α} {h : Heap}
    (enters : EntersOnly (· = m) call)
    (fails : ∀ text, (call (.failing text) h).1 = .error (.native (text o))) : o = m := by
  have same : call (.failing fun _ => "own") =
      call (.failing fun k => if k = m then "own" else "other") := by
    apply enters
    rintro k rfl
    funext frame
    simp [Bodies.failing]
  have outcomes := congrArg (fun run => (run h).1) same
  have texts := InvokeError.native.inj (Except.error.inj
    ((fails _).symm.trans (outcomes.trans (fails _))))
  by_cases met : o = m
  · exact met
  · simp [met] at texts

variable {r : Registry} {m : Method} {this : Value} {t : Ty}

theorem Registry.shape_target (r : Registry) (isInstance : m.isStatic = false) (this : Value) :
    (r.target m this).isStatic = false ∧
      (r.target m this).params.length = m.params.length := by
  rcases r.target_eq_or_overrides m this with same | overriding
  · rw [same]
    exact ⟨isInstance, rfl⟩
  · obtain ⟨_, isInstance', _, _, params⟩ := Method.overrides_iff.mp overriding.overrides
    exact ⟨isInstance', by simpa using congrArg List.length params⟩

section

variable (isInstance : m.isStatic = false) (hasType : this.runtimeType? = some t)

include isInstance hasType

/-- On a receiver with a runtime type, a virtual call with as many slots as parameters is the body
of the target. -/
theorem Method.callVirtual_eq_body {slots : Array Slot} (count : slots.size = m.params.length)
    (b : Bodies) : m.callVirtual ⟨r, b⟩ this slots = b.method (r.target m this) ⟨this, slots⟩ := by
  obtain ⟨instanceTarget, length⟩ := r.shape_target isInstance this
  have notNull : this.isNull = false := by
    cases this with
    | null => cases hasType
    | _ => rfl
  rw [callVirtual_eq_call r m isInstance hasType, call]
  simp [count, length, instanceTarget, notNull]

theorem Method.callVirtual_of_count_ne {slots : Array Slot} (count : slots.size ≠ m.params.length)
    (b : Bodies) : m.callVirtual ⟨r, b⟩ this slots =
      throw (.argumentCount (r.methodLabel (r.target m this)) m.params.length slots.size) := by
  rw [callVirtual_eq_call r m isInstance hasType, call]
  simp [count, r.shape_target isInstance this]

end

/-- A trusted routine makes the virtual call on the converted arguments. -/
theorem MethodInvoker.invoke_trusted {r' : Registry} {i : MethodInvoker}
    (compiled : compile r' m .trusted = .ok i) (isInstance : m.isStatic = false) (p : Program)
    (this : Value) (args : Array Value) :
    i.invoke p this args =
      convertFrom p.registry args 0 m.params >>= fun slots =>
        m.callVirtual p this slots.toArray >>= finish p.registry m := by
  rw [invoke_of_compile compiled]
  refine bind_congr fun slots => ?_
  rw [Method.enter, if_neg (Bool.eq_false_iff.mp isInstance)]
  rfl

section

variable (reached : Registry.Reaches {} r) (known : r.knows t = true)
  (isInstance : m.isStatic = false) (hasType : this.runtimeType? = some t)
  (foreign : r.assignable m.declaring t = false)

include reached known isInstance hasType foreign

theorem Registry.target_eq_iff_spares : r.target m this = m ↔ r.Spares t m := by
  rcases target_cases reached known isInstance hasType foreign with
    ⟨same, spares⟩ | ⟨o, same, diverts, foreign'⟩
  · exact iff_of_true same spares
  · refine iff_of_false (fun same' => ?_) diverts.not_spares
    rw [same] at same'
    rw [same', (assignable_iff _ _ _).mpr (.inl rfl)] at foreign'
    cases foreign'

theorem Method.callVirtual_own_iff (slots : Array Slot) :
    EntersOnly (· = m) (fun b => m.callVirtual ⟨r, b⟩ this slots) ↔
      r.Spares t m ∨ slots.size ≠ m.params.length := by
  rw [← Registry.target_eq_iff_spares reached known isInstance hasType foreign]
  constructor
  · intro own
    by_cases count : slots.size = m.params.length
    · refine .inl (own.eq_of_fails (h := {}) fun text => ?_)
      rw [callVirtual_eq_body isInstance hasType count]
      rfl
    · exact .inr count
  · rintro (same | count)
    · have enters := callVirtual_entersOnly r m isInstance this slots
      rwa [same] at enters
    · intro b b' _
      simp only [callVirtual_of_count_ne isInstance hasType count]

/-- Conversion failures apart, a trusted routine enters its own method alone exactly if no type on
the way up from that of the receiver has a method to enter instead. -/
theorem MethodInvoker.invoke_own_iff {r' : Registry} {i : MethodInvoker}
    (compiled : compile r' m .trusted = .ok i) (args : Array Value) :
    EntersOnly (· = m) (fun b => i.invoke ⟨r, b⟩ this args) ↔
      r.Spares t m ∨ ∀ h, ∃ e, (convertFrom r args 0 m.params h).1 = .error e := by
  rw [← Registry.target_eq_iff_spares reached known isInstance hasType foreign]
  simp only [invoke_trusted compiled isInstance]
  constructor
  · intro own
    by_cases fail : ∀ h, ∃ e, (convertFrom r args 0 m.params h).1 = .error e
    · exact .inr fail
    · obtain ⟨h, converts⟩ := Classical.not_forall.mp fail
      refine .inl (own.eq_of_fails (h := h) fun text => ?_)
      rw [Run.bind_apply]
      cases result : convertFrom r args 0 m.params h with
      | mk outcome middle =>
        cases outcome with
        | error e => exact absurd ⟨e, congrArg Prod.fst result⟩ converts
        | ok slots =>
          have count : slots.toArray.size = m.params.length :=
            length_convertFrom r args 0 m.params h slots middle result
          simp only [Method.callVirtual_eq_body isInstance hasType count]
          rfl
  · rintro (same | fail)
    · have enters := invoke_entersOnly compiled r this args
      simpa only [same, invoke_trusted compiled isInstance] using enters
    · intro b b' _
      funext h
      refine Run.bind_congr_at fun slots middle converted => ?_
      obtain ⟨e, failed⟩ := fail h
      rw [converted] at failed
      cases failed

end

/-- What a call that does not check its receiver makes of a wrong one. If the method is not virtual,
or if no type on the way up from that of the receiver has a virtual method with its signature, its
own body is the only one that can be entered. Otherwise the nearest such method is entered, by
virtual calls and by trusted routines alike, although the type that declares it does not derive from
that of the method asked for; only calls that fail before they enter anything do not show it. -/
theorem foreign_receivers {r : Registry} (reached : Registry.Reaches {} r) {m : Method}
    {this : Value} {t : Ty} (known : r.knows t = true) (isInstance : m.isStatic = false)
    (hasType : this.runtimeType? = some t) (foreign : r.assignable m.declaring t = false) :
    (∃ o, (o = m ∧ r.Spares t m ∨
          r.Diverts t m o ∧ r.assignable m.declaring o.declaring = false) ∧
        (∀ slots, EntersOnly (· = o) fun b => m.callVirtual ⟨r, b⟩ this slots) ∧
        ∀ r' i, MethodInvoker.compile r' m .trusted = .ok i → ∀ args,
          EntersOnly (· = o) fun b => i.invoke ⟨r, b⟩ this args) ∧
      (∀ slots, EntersOnly (· = m) (fun b => m.callVirtual ⟨r, b⟩ this slots) ↔
        r.Spares t m ∨ slots.size ≠ m.params.length) ∧
      ∀ r' i, MethodInvoker.compile r' m .trusted = .ok i → ∀ args,
        (EntersOnly (· = m) (fun b => i.invoke ⟨r, b⟩ this args) ↔
          r.Spares t m ∨ ∀ h, ∃ e, (convertFrom r args 0 m.params h).1 = .error e) := by
  refine ⟨⟨r.target m this, ?_, m.callVirtual_entersOnly r isInstance this, ?_⟩, ?_, ?_⟩
  · rcases Registry.target_cases reached known isInstance hasType foreign with
      ⟨same, spares⟩ | ⟨o, same, diverts, foreign'⟩
    · exact .inl ⟨same, spares⟩
    · rw [same]
      exact .inr ⟨diverts, foreign'⟩
  · exact fun r' i compiled args => MethodInvoker.invoke_entersOnly compiled r this args
  · exact Method.callVirtual_own_iff reached known isInstance hasType foreign
  · intro r' i compiled args
    exact MethodInvoker.invoke_own_iff reached known isInstance hasType foreign compiled args

/-! Locks can be opened, and so can jars, which are no locks. Stones cannot. -/

namespace Opening

def lock : Ty := .classType 0
def jar : Ty := .classType 1
def stone : Ty := .classType 2

def flags : Flags := { isPublic := true, isVirtual := true }

def opened (declaring : Ty) : Method := ⟨declaring, 0, "Open", [], .string, flags⟩

def edits : List Edit :=
  [.startClass "Lock", .addMethod lock "Open" [] .string flags, .finish lock,
    .startClass "Jar", .addMethod jar "Open" [] .string flags, .finish jar,
    .startClass "Stone", .finish stone]

def registry : Registry :=
  { types := #[
      ⟨"Lock", [.object], .finished (Draft.members { methods := [opened lock] })⟩,
      ⟨"Jar", [.object], .finished (Draft.members { methods := [opened jar] })⟩,
      ⟨"Stone", [.object], .finished (Draft.members {})⟩] }

theorem replay_edits : Registry.replay {} edits = some registry := by rfl

/-- Bodies that tell what is opened. -/
def bodies : Bodies where
  method m _ := pure (.ref (.string (if m.declaring = lock then "lock" else "jar")))
  constructor _ _ := pure ()

theorem compiled : MethodInvoker.compile registry (opened lock) .trusted =
    .ok ⟨opened lock, MethodInvoker.body registry (opened lock) .trusted,
      MethodInvoker.maxStack (opened lock),
      MethodInvoker.check_body registry .trusted (by decide)⟩ :=
  MethodInvoker.compile_eq_ok registry .trusted (by decide) (by decide)

end Opening

open Opening

/-- A jar that is to be opened as a lock is opened as a jar, unless it is checked to be a lock. -/
theorem foreign_receiver_diverted :
    Registry.Reaches {} registry ∧ (opened lock).isStatic = false ∧
      registry.assignable lock jar = false ∧
      ((opened lock).invoke ⟨registry, bodies⟩ (.object ⟨jar, 0⟩) #[] { objects := #[[]] }).1 =
        .error (.invalidCast "Lock" "Jar") ∧
      (((opened lock).callVirtual ⟨registry, bodies⟩ (.object ⟨jar, 0⟩) #[]
          { objects := #[[]] }).1 = .ok (.ref (.string "jar")) ∧
        ¬ EntersOnly (· = opened lock) fun b =>
          (opened lock).callVirtual ⟨registry, b⟩ (.object ⟨jar, 0⟩) #[]) ∧
      ∃ i, MethodInvoker.compile registry (opened lock) .trusted = .ok i ∧
        (i.invoke ⟨registry, bodies⟩ (.object ⟨jar, 0⟩) #[] { objects := #[[]] }).1 =
          .ok (.string "jar") ∧
        ¬ EntersOnly (· = opened lock) fun b => i.invoke ⟨registry, b⟩ (.object ⟨jar, 0⟩) #[] := by
  have other : opened jar ≠ opened lock := by decide
  refine ⟨Registry.reaches_of_replay replay_edits, rfl, by decide, rfl, ⟨rfl, fun own => ?_⟩,
    _, compiled, ?_, fun own => ?_⟩
  · exact other (own.eq_of_fails (h := {}) fun text => rfl)
  · rw [MethodInvoker.invoke_trusted compiled rfl]
    rfl
  · simp only [MethodInvoker.invoke_trusted compiled rfl] at own
    exact other (own.eq_of_fails (h := {}) fun text => rfl)

/-- A stone has nothing to be opened by, so that of locks has to reject it; the one of jars takes a
jar from it. -/
theorem foreign_receivers_opening :
    ∃ i, MethodInvoker.compile registry (opened lock) .trusted = .ok i ∧
      (∀ args, EntersOnly (· = opened lock) fun b =>
        i.invoke ⟨registry, b⟩ (.object ⟨stone, 0⟩) args) ∧
      ∃ o, registry.Diverts jar (opened lock) o ∧
        ∀ args, EntersOnly (· = o) fun b => i.invoke ⟨registry, b⟩ (.object ⟨jar, 0⟩) args := by
  have reached := Registry.reaches_of_replay replay_edits
  have stones : registry.Spares stone (opened lock) := by
    intro _ s mem k declared
    have none : ∀ s ∈ registry.chain stone, registry.methods s = [] := by decide
    rw [none s mem] at declared
    cases declared
  have jars : ¬ registry.Spares jar (opened lock) := fun spares =>
    spares rfl jar (by decide) (opened jar) (by decide) ⟨rfl, rfl, rfl, rfl, rfl⟩
  have foreignStone : registry.assignable (opened lock).declaring stone = false := by decide
  have foreignJar : registry.assignable (opened lock).declaring jar = false := by decide
  have stoneType : (Value.object ⟨stone, 0⟩).runtimeType? = some stone := rfl
  have jarType : (Value.object ⟨jar, 0⟩).runtimeType? = some jar := rfl
  obtain ⟨_, _, onStones⟩ := foreign_receivers reached (by decide) rfl stoneType foreignStone
  obtain ⟨⟨o, entered, _, onJars⟩, _⟩ :=
    foreign_receivers reached (by decide) rfl jarType foreignJar
  refine ⟨_, compiled, fun args => (onStones _ _ compiled args).mpr (.inl stones), o, ?_,
    onJars _ _ compiled⟩
  rcases entered with ⟨_, spares⟩ | ⟨diverts, _⟩
  · exact absurd spares jars
  · exact diverts

end MemberAccess
