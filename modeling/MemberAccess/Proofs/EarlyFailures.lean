import MemberAccess.Proofs.CallAgreement
import MemberAccess.Proofs.FieldAgreement

/-!
Failures before anything happens. In each of the ways of using a member all checks come first:
arguments are converted from left to right, then the receiver is looked at, and only then a body
runs. So a call that is refused enters no body and changes nothing, and the error names the first
cause in that order. A write that fails changes nothing either.
-/

namespace MemberAccess

open Code Invoker

/-- Whether a call fails with just this error whatever the bodies of members do, and leaves the
store as it is: no body has been entered. -/
def FailsBeforeEntry (call : Bodies → RunM α) (h : Heap) (e : InvokeError) : Prop :=
  ∀ b, call b h = (.error e, h)

/-- What converting the argument for parameter `i` gives, where there are both. -/
def argument? (r : Registry) (params : List Param) (args : Array Value) (h : Heap) (i : Nat) :
    Option (Except InvokeError Slot) := do
  let q ← params[i]?
  let v ← args[i]?
  return (v.unbox r q.type h).1

/-- Converts the arguments that have parameters from left to right. -/
def unboxAll (r : Registry) (params : List Param) (args : Array Value) : RunM (List Slot) :=
  (params.zip args.toList).mapM fun (q, v) => v.unbox r q.type

/-- What is wrong with the receiver of a method; a static method takes any. -/
def Method.receiverError? (r : Registry) (m : Method) (this : Value) : Option InvokeError :=
  if m.isStatic then none
  else
    match this.runtimeType? with
    | none => some (.nullReference s!"receiver of {r.methodLabel m}")
    | some t =>
      if r.assignable m.declaring t then none
      else some (.invalidCast (r.name m.declaring) (r.name t))

/-- Whether all checks of a call come before it has any effect, the arguments first. -/
structure ChecksFirst (r : Registry) (params : List Param) (enough : Nat → Prop)
    (args : Array Value) (receiverError? : Option InvokeError) (h : Heap)
    (call : Bodies → RunM α) : Prop where
  /-- Each of the causes is sufficient. -/
  refuses : (¬ enough args.size ∨ (∃ i e, argument? r params args h i = some (.error e)) ∨
    receiverError?.isSome = true) → ∃ e, FailsBeforeEntry call h e
  /-- Of the arguments that do not convert, the first one is reported. -/
  argument : enough args.size → ∀ i e, argument? r params args h i = some (.error e) →
    (∀ j < i, ∃ s, argument? r params args h j = some (.ok s)) → FailsBeforeEntry call h e
  /-- The receiver is reported if all arguments convert. -/
  receiver : enough args.size →
    (∀ i < params.length, ∃ s, argument? r params args h i = some (.ok s)) →
      ∀ e, receiverError? = some e → FailsBeforeEntry call h e

section

variable {r : Registry} {params : List Param} {args : Array Value} {h : Heap} {i : Nat}

theorem argument?_eq_some {x : Except InvokeError Slot} :
    argument? r params args h i = some x ↔
      ∃ pair, (params.zip args.toList)[i]? = some pair ∧
        (pair.2.unbox r pair.1.type h).1 = x := by
  unfold argument?
  constructor
  · intro found
    obtain ⟨q, taken, found⟩ := Option.bind_eq_some_iff.mp found
    obtain ⟨v, taken', found⟩ := Option.bind_eq_some_iff.mp found
    refine ⟨(q, v), List.getElem?_zip_eq_some.mpr ⟨taken, ?_⟩, Option.some.inj found⟩
    rw [Array.getElem?_toList]
    exact taken'
  · rintro ⟨⟨q, v⟩, found, rfl⟩
    obtain ⟨taken, taken'⟩ := List.getElem?_zip_eq_some.mp found
    rw [Array.getElem?_toList] at taken'
    rw [taken, taken']
    rfl

theorem lt_of_argument? {x : Except InvokeError Slot}
    (found : argument? r params args h i = some x) : i < params.length ∧ i < args.size := by
  obtain ⟨_, taken, _⟩ := argument?_eq_some.mp found
  obtain ⟨bound, _⟩ := List.getElem?_eq_some_iff.mp taken
  rw [List.length_zip, Nat.lt_min] at bound
  exact bound

/-- An argument that has a parameter is converted or rejected. -/
theorem argument?_of_lt (r : Registry) (h : Heap) (bound : i < params.length)
    (bound' : i < args.size) :
    (∃ s, argument? r params args h i = some (.ok s)) ∨
      ∃ e, argument? r params args h i = some (.error e) := by
  have taken := List.getElem?_eq_getElem bound
  have taken' := Array.getElem?_eq_getElem bound'
  unfold argument?
  rw [taken, taken']
  cases result : (args[i].unbox r params[i].type h).1 with
  | ok s => exact .inl ⟨s, congrArg some result⟩
  | error e => exact .inr ⟨e, congrArg some result⟩

/-- If any argument is rejected, then one is before which all others are converted. -/
theorem exists_first_rejected {e : InvokeError}
    (rejected : argument? r params args h i = some (.error e)) :
    ∃ i e, argument? r params args h i = some (.error e) ∧
      ∀ j < i, ∃ s, argument? r params args h j = some (.ok s) := by
  induction i using Nat.strongRecOn generalizing e with
  | ind i ih =>
    by_cases earlier : ∃ j < i, ∃ e, argument? r params args h j = some (.error e)
    · obtain ⟨j, before, e', rejected'⟩ := earlier
      exact ih j before rejected'
    · refine ⟨i, e, rejected, fun j before => ?_⟩
      obtain ⟨bound, bound'⟩ := lt_of_argument? rejected
      have inParams := Nat.lt_trans before bound
      have inArgs := Nat.lt_trans before bound'
      rcases argument?_of_lt r h inParams inArgs with accepted | rejected'
      · exact accepted
      · exact absurd ⟨j, before, rejected'⟩ earlier

theorem unbox_pair_reads (r : Registry) (pair : Param × Value) :
    (pair.2.unbox r pair.1.type).Reads :=
  pair.2.unbox_reads r pair.1.type

theorem unboxAll_eq_error {e : InvokeError}
    (rejected : argument? r params args h i = some (.error e))
    (earlier : ∀ j < i, ∃ s, argument? r params args h j = some (.ok s)) :
    unboxAll r params args h = (.error e, h) := by
  obtain ⟨pair, found, failed⟩ := argument?_eq_some.mp rejected
  refine Run.Reads.mapM_eq_error (unbox_pair_reads r) found failed fun j before other found' => ?_
  obtain ⟨s, accepted⟩ := earlier j before
  obtain ⟨_, same, converted⟩ := argument?_eq_some.mp accepted
  rw [found'] at same
  cases same
  exact ⟨s, converted⟩

theorem unboxAll_eq_ok
    (accepted : ∀ i < params.length, i < args.size →
      ∃ s, argument? r params args h i = some (.ok s)) :
    ∃ slots, unboxAll r params args h = (.ok slots, h) := by
  refine Run.Reads.mapM_eq_ok (unbox_pair_reads r) fun pair mem => ?_
  obtain ⟨i, bound, found⟩ := List.mem_iff_getElem.mp mem
  obtain ⟨inParams, inArgs⟩ : i < params.length ∧ i < args.size := by
    rw [List.length_zip] at bound
    exact Nat.lt_min.mp bound
  obtain ⟨s, converted⟩ := accepted i inParams inArgs
  obtain ⟨_, same, converted⟩ := argument?_eq_some.mp converted
  rw [List.getElem?_eq_getElem bound, found] at same
  cases same
  exact ⟨s, converted⟩

end

/-- It is sufficient to know what a call does with enough arguments: convert them one by one, and
then fail if there is anything wrong with the receiver. -/
theorem ChecksFirst.of_conversion {r : Registry} {params : List Param} {enough : Nat → Prop}
    {args : Array Value} {receiverError? : Option InvokeError} {h : Heap} {call : Bodies → RunM α}
    (rest : Bodies → List Slot → RunM α)
    (short : ¬ enough args.size → ∃ e, FailsBeforeEntry call h e)
    (room : enough args.size → params.length ≤ args.size)
    (converts : enough args.size → ∀ b, call b = unboxAll r params args >>= rest b)
    (refused : ∀ e, receiverError? = some e → ∀ b slots, rest b slots = throw e) :
    ChecksFirst r params enough args receiverError? h call := by
  have argument (full : enough args.size) (i : Nat) (e : InvokeError)
      (rejected : argument? r params args h i = some (.error e))
      (earlier : ∀ j < i, ∃ s, argument? r params args h j = some (.ok s)) :
      FailsBeforeEntry call h e := by
    intro b
    rw [converts full b, Run.bind_apply, unboxAll_eq_error rejected earlier]
  have receiver (full : enough args.size)
      (accepted : ∀ i < params.length, ∃ s, argument? r params args h i = some (.ok s))
      (e : InvokeError) (wrong : receiverError? = some e) : FailsBeforeEntry call h e := by
    obtain ⟨slots, converted⟩ := unboxAll_eq_ok fun i bound _ => accepted i bound
    intro b
    rw [converts full b, Run.bind_apply, converted]
    exact congrFun (refused e wrong b slots) h
  refine ⟨fun cause => ?_, argument, receiver⟩
  by_cases full : enough args.size
  · by_cases rejected : ∃ i e, argument? r params args h i = some (.error e)
    · obtain ⟨i, e, rejected⟩ := rejected
      obtain ⟨i, e, rejected, earlier⟩ := exists_first_rejected rejected
      exact ⟨e, argument full i e rejected earlier⟩
    · -- Nothing but the receiver is left as a cause.
      have wrong : receiverError?.isSome = true := by
        rcases cause with short | rejected' | wrong
        · exact absurd full short
        · exact absurd rejected' rejected
        · exact wrong
      obtain ⟨e, wrong⟩ := Option.isSome_iff_exists.mp wrong
      refine ⟨e, receiver full (fun i bound => ?_) e wrong⟩
      rcases argument?_of_lt r h bound (Nat.lt_of_lt_of_le bound (room full))
        with accepted | rejected'
      · exact accepted
      · exact absurd ⟨i, rejected'⟩ rejected
  · exact short full

/-! Conversion by position, as compiled routines do it, fails on too short an array. -/

theorem Value.coerce_reads (r : Registry) (v : Value) (t : Ty) : (v.coerce r t).Reads := by
  unfold Value.coerce
  split
  · exact v.unbox_reads r t
  · exact .ofExcept _

theorem convertFrom_reads (r : Registry) (a : Array Value) (i : Nat) (params : List Param) :
    (convertFrom r a i params).Reads := by
  induction params generalizing i with
  | nil => exact .pure []
  | cons q rest ih =>
    refine .bind (.ofExcept _) fun v => .bind (v.coerce_reads r q.type) fun s => ?_
    exact .bind (ih (i + 1)) fun slots => .pure (s :: slots)

/-- There is an element for each parameter if all of them are converted. -/
theorem size_of_convertFrom {r : Registry} {a : Array Value} {i : Nat} {params : List Param}
    (few : i + params.length ≤ 65535) (start : i ≤ a.size) :
    (convertFrom r a i params).Yields fun _ => i + params.length ≤ a.size := by
  induction params generalizing i with
  | nil => exact fun _ _ _ _ => start
  | cons q rest ih =>
    rw [List.length_cons] at few ⊢
    by_cases bound : i < a.size
    · have later := ih (i := i + 1) (by omega) bound
      refine .bind (.trivial _) fun v _ => .bind (.trivial _) fun s _ => ?_
      refine .bind later fun slots enough => .pure ?_
      omega
    · have missing := elementAt_of_size_le (Nat.le_of_not_lt bound) (by omega)
      rw [convertFrom, missing, Run.ofExcept_error, Run.throw_bind]
      exact .throw _

theorem convertFrom_of_short (r : Registry) {a : Array Value} {params : List Param}
    (short : a.size < params.length) (few : params.length < 65535) (h : Heap) :
    ∃ e, convertFrom r a 0 params h = (.error e, h) := by
  have kept := convertFrom_reads r a 0 params h
  cases result : (convertFrom r a 0 params h).1 with
  | error e => exact ⟨e, Prod.ext result kept⟩
  | ok slots =>
    have room : (convertFrom r a 0 params).Yields fun _ => 0 + params.length ≤ a.size :=
      size_of_convertFrom (by omega) (Nat.zero_le _)
    have enough := room h slots _ (Prod.ext result rfl)
    omega

theorem convertFrom_eq_unboxAll (r : Registry) {a : Array Value} {params : List Param}
    (enough : params.length ≤ a.size) (few : params.length < 65535)
    (typed : ∀ q ∈ params, q.type ≠ .void) :
    convertFrom r a 0 params = unboxAll r params a :=
  convertFrom_eq_mapM r a (by omega) (by omega) typed

namespace ChecksFirst

variable {r : Registry} {params : List Param} {args : Array Value}
  {receiverError? : Option InvokeError} {h : Heap} {call : Bodies → RunM α}
  (rest : Bodies → List Slot → RunM α)
  (refused : ∀ e, receiverError? = some e → ∀ b slots, rest b slots = throw e)

include refused

/-- A call that insists on the exact number of arguments. -/
theorem of_exact (member : String)
    (shape : ∀ b, call b =
      if args.size = params.length then unboxAll r params args >>= rest b
      else throw (.argumentCount member params.length args.size)) :
    ChecksFirst r params (· = params.length) args receiverError? h call := by
  apply of_conversion rest
  case short =>
    intro short
    refine ⟨.argumentCount member params.length args.size, fun b => ?_⟩
    rw [shape b, if_neg short]
    rfl
  case room => exact fun count => Nat.le_of_eq count.symm
  case converts =>
    intro count b
    rw [shape b, if_pos count]
  case refused => exact refused

/-- A call that takes its arguments by position, whatever comes after the last one. -/
theorem of_positional (few : params.length < 65535) (typed : ∀ q ∈ params, q.type ≠ .void)
    (shape : ∀ b, call b = convertFrom r args 0 params >>= rest b) :
    ChecksFirst r params (params.length ≤ ·) args receiverError? h call := by
  apply of_conversion rest
  case short =>
    intro short
    obtain ⟨e, failed⟩ := convertFrom_of_short r (Nat.lt_of_not_le short) few h
    refine ⟨e, fun b => ?_⟩
    rw [shape b, Run.bind_apply, failed]
  case room => exact id
  case converts =>
    intro enough b
    rw [shape b, convertFrom_eq_unboxAll r enough few typed]
  case refused => exact refused

/-- A call that takes its arguments by position after it has counted them. -/
theorem of_counted (few : params.length < 65535) (typed : ∀ q ∈ params, q.type ≠ .void)
    (member : String)
    (shape : ∀ b, call b =
      if args.size = params.length then convertFrom r args 0 params >>= rest b
      else throw (.argumentCount member params.length args.size)) :
    ChecksFirst r params (· = params.length) args receiverError? h call := by
  refine of_exact rest refused member fun b => ?_
  rw [shape b]
  by_cases count : args.size = params.length
  · rw [if_pos count, if_pos count,
      convertFrom_eq_unboxAll r (Nat.le_of_eq count.symm) few typed]
  · rw [if_neg count, if_neg count]

end ChecksFirst

theorem unboxArguments_bind (r : Registry) (member : String) (params : List Param)
    (args : Array Value) (f : Array Slot → RunM α) :
    unboxArguments r member params args >>= f =
      if args.size = params.length then unboxAll r params args >>= fun slots => f slots.toArray
      else throw (.argumentCount member params.length args.size) := by
  by_cases count : args.size = params.length
  · rw [if_pos count, unboxArguments_of_eq r member count, bind_assoc]
    simp only [pure_bind]
    rfl
  · rw [if_neg count, unboxArguments_of_ne r member count, Run.throw_bind]

namespace Method

variable {m : Method}

/-- A receiver that is refused keeps a method from being entered. -/
theorem enter_of_receiverError (p : Program) {this : Value} {e : InvokeError}
    (wrong : m.receiverError? p.registry this = some e) (slots : List Slot) :
    m.enter p .checked this slots = throw e := by
  unfold receiverError? at wrong
  by_cases static : m.isStatic = true
  · rw [if_pos static] at wrong
    cases wrong
  · rw [if_neg static] at wrong
    unfold enter
    rw [if_neg static, Policy.pass, Value.cast]
    cases runtime : this.runtimeType? with
    | none =>
      rw [runtime] at wrong
      cases wrong
      rfl
    | some t =>
      rw [runtime] at wrong
      by_cases accepted : p.registry.assignable m.declaring t = true
      · simp only [if_pos accepted] at wrong
        cases wrong
      · simp only [if_neg accepted] at wrong ⊢
        cases wrong
        rfl

/-- Whatever is done with the result of a method, it is not entered on a refused receiver. -/
theorem enter_bind_of_receiverError {r : Registry} {this : Value} (f : Slot → RunM Value) :
    ∀ e, m.receiverError? r this = some e → ∀ (b : Bodies) (slots : List Slot),
      m.enter ⟨r, b⟩ .checked this slots >>= f = throw e := by
  intro e wrong b slots
  rw [enter_of_receiverError ⟨r, b⟩ wrong, Run.throw_bind]

theorem invoke_checksFirst (r : Registry) (m : Method) (this : Value) (args : Array Value)
    (h : Heap) :
    ChecksFirst r m.params (· = m.params.length) args (m.receiverError? r this) h
      fun b => m.invoke ⟨r, b⟩ this args := by
  refine .of_exact _ (enter_bind_of_receiverError fun result =>
    if m.returns.isVoid then pure .null else result.box r m.returns) (r.methodLabel m) fun b => ?_
  simp only [Method.invoke_eq, unboxArguments_bind]

end Method

namespace MethodInvoker

/-- What a routine does with the result of its method. -/
def finish (r : Registry) (m : Method) (result : Slot) : RunM Value :=
  Run.mapError ExecError.toInvokeError
    (if m.returns.isVoid then pure .null else result.handOver r m.returns)

theorem mapError_answer_eq (p : Program) (m : Method) (policy : Policy) (this : Value)
    (args : Array Value) :
    (answer p m policy this args).mapError ExecError.toInvokeError =
      convertFrom p.registry args 0 m.params >>= fun slots =>
        m.enter p policy this slots >>= finish p.registry m := by
  simp only [answer, Run.mapError_bind, ExecM.mapError_run]
  rfl

variable {m : Method} {r' : Registry} {i : MethodInvoker}

/-- A routine converts the arguments, enters its method and finishes, in this order. -/
theorem invoke_of_compile {policy : Policy} (compiled : compile r' m policy = .ok i) (p : Program)
    (this : Value) (args : Array Value) :
    i.invoke p this args =
      convertFrom p.registry args 0 m.params >>= fun slots =>
        m.enter p policy this slots >>= finish p.registry m := by
  obtain ⟨made, same, few⟩ := of_compile compiled
  rw [same, invoke_eq_answer p m policy made few, mapError_answer_eq]

theorem invoke_checksFirst (compiled : compile r' m .checked = .ok i)
    (typed : ∀ q ∈ m.params, q.type ≠ .void) (r : Registry) (this : Value) (args : Array Value)
    (h : Heap) :
    ChecksFirst r m.params (m.params.length ≤ ·) args (m.receiverError? r this) h
      fun b => i.invoke ⟨r, b⟩ this args := by
  obtain ⟨_, _, few⟩ := of_compile compiled
  refine .of_positional _ (Method.enter_bind_of_receiverError (finish r m)) few typed fun b => ?_
  exact invoke_of_compile compiled ⟨r, b⟩ this args

end MethodInvoker

namespace MethodFacade

variable {m : Method} {r' : Registry} {x : MethodFacade}

theorem of_ofMethod {policy : Policy} (made : ofMethod r' m policy = .ok x) :
    MethodInvoker.compile r' m policy = .ok x.invoker := by
  unfold ofMethod at made
  cases compiled : MethodInvoker.compile r' m policy with
  | error e =>
    rw [compiled] at made
    cases made
  | ok i =>
    rw [compiled] at made
    cases made
    rfl

theorem invoke_checksFirst (made : ofMethod r' m = .ok x) (typed : ∀ q ∈ m.params, q.type ≠ .void)
    (r : Registry) (this : Value) (args : Array Value) (h : Heap) :
    ChecksFirst r m.params (· = m.params.length) args (m.receiverError? r this) h
      fun b => x.invoke ⟨r, b⟩ this args := by
  obtain ⟨made, same, few⟩ := MethodInvoker.of_compile (of_ofMethod made)
  have whole : x = ⟨m, x.invoker.routine⟩ := congrArg MethodFacade.mk same
  refine .of_counted _ (Method.enter_bind_of_receiverError (MethodInvoker.finish r m)) few typed
    (r.methodLabel m) fun b => ?_
  rw [whole, invoke_eq _ m .checked made few, MethodInvoker.mapError_answer_eq]

end MethodFacade

/-! A constructor has no receiver that could be refused. -/

namespace Constructor

theorem invoke_checksFirst (r : Registry) (c : Constructor) (args : Array Value) (h : Heap) :
    ChecksFirst r c.params (· = c.params.length) args none h fun b => c.invoke ⟨r, b⟩ args := by
  refine .of_exact (fun b slots => c.construct ⟨r, b⟩ slots.toArray >>= fun created =>
    created.box r c.declaring) nofun (r.constructorLabel c) fun b => ?_
  simp only [Constructor.invoke, unboxArguments_bind]

end Constructor

namespace ConstructorInvoker

/-- What a routine does with the converted arguments. -/
def finish (p : Program) (c : Constructor) (slots : List Slot) : RunM Value :=
  c.construct p slots.toArray >>= fun created =>
    (created.handOver p.registry c.declaring).mapError ExecError.toInvokeError

theorem mapError_answer_eq (p : Program) (c : Constructor) (args : Array Value) :
    (answer p c args).mapError ExecError.toInvokeError =
      convertFrom p.registry args 0 c.params >>= finish p c := by
  simp only [answer, Run.mapError_bind, ExecM.mapError_run]
  rfl

variable {c : Constructor} {r' : Registry} {i : ConstructorInvoker}

/-- A routine converts the arguments and constructs the instance, in this order. -/
theorem invoke_of_compile (compiled : compile r' c = .ok i) (p : Program) (args : Array Value) :
    i.invoke p args = convertFrom p.registry args 0 c.params >>= finish p c := by
  obtain ⟨made, same, few⟩ := of_compile compiled
  rw [same, invoke_eq_answer p c made few, mapError_answer_eq]

theorem invoke_checksFirst (compiled : compile r' c = .ok i)
    (typed : ∀ q ∈ c.params, q.type ≠ .void) (r : Registry) (args : Array Value) (h : Heap) :
    ChecksFirst r c.params (c.params.length ≤ ·) args none h fun b => i.invoke ⟨r, b⟩ args := by
  obtain ⟨_, _, few⟩ := of_compile compiled
  refine .of_positional (fun b => finish ⟨r, b⟩ c) nofun few typed fun b => ?_
  exact invoke_of_compile compiled ⟨r, b⟩ args

end ConstructorInvoker

namespace ConstructorFacade

variable {c : Constructor} {r' : Registry} {x : ConstructorFacade}

theorem of_ofConstructor (made : ofConstructor r' c = .ok x) :
    ConstructorInvoker.compile r' c = .ok x.invoker := by
  unfold ofConstructor at made
  cases compiled : ConstructorInvoker.compile r' c with
  | error e =>
    rw [compiled] at made
    cases made
  | ok i =>
    rw [compiled] at made
    cases made
    rfl

theorem invoke_checksFirst (made : ofConstructor r' c = .ok x)
    (typed : ∀ q ∈ c.params, q.type ≠ .void) (r : Registry) (args : Array Value) (h : Heap) :
    ChecksFirst r c.params (· = c.params.length) args none h fun b => x.invoke ⟨r, b⟩ args := by
  obtain ⟨made, same, few⟩ := ConstructorInvoker.of_compile (of_ofConstructor made)
  have whole : x = ⟨c, x.invoker.routine⟩ := congrArg ConstructorFacade.mk same
  refine .of_counted (fun b => ConstructorInvoker.finish ⟨r, b⟩ c) nofun few typed
    (r.constructorLabel c) fun b => ?_
  rw [whole, invoke_eq _ c made few, ConstructorInvoker.mapError_answer_eq]

end ConstructorFacade

/-- Whether a computation leaves the store as it is whenever it fails. -/
def Run.KeepsOnError (x : Run ε α) : Prop :=
  ∀ h e after, x h = (.error e, after) → after = h

namespace Run.KeepsOnError

theorem of_reads {x : Run ε α} (reads : x.Reads) : x.KeepsOnError := by
  intro h e after failed
  have kept := reads h
  rwa [failed] at kept

theorem bind {x : Run ε α} {f : α → Run ε β} (first : x.Reads) (next : ∀ a, (f a).KeepsOnError) :
    (x >>= f).KeepsOnError := by
  intro h e after failed
  have kept := first h
  rw [bind_apply] at failed
  cases result : x h with
  | mk outcome middle =>
    rw [result] at failed kept
    cases outcome with
    | error e' =>
      cases failed
      exact kept
    | ok a => exact (next a middle e after failed).trans kept

end Run.KeepsOnError

/-- A slot is stored after all checks. -/
theorem Field.store_keepsOnError (r : Registry) (f : Field) (target : Value) (s : Slot) :
    (f.store r target s).KeepsOnError := by
  unfold Field.store
  split
  · split
    · intro h e after failed
      cases failed
    · refine .bind (.ofExcept _) fun o => .bind .get fun h => ?_
      split
      · intro h e after failed
        cases failed
      · exact .of_reads (.throw _)
  · exact .of_reads (.throw _)

theorem Field.write_keepsOnError (r : Registry) (f : Field) (target value : Value) :
    (f.write r target value).KeepsOnError :=
  .bind (value.unbox_reads r f.type) (f.store_keepsOnError r target)

theorem FieldWriter.answer_keepsOnError (p : Program) (f : Field) (policy : Policy)
    (target value : Value) : (answer p f policy target value).KeepsOnError :=
  .bind (.ofExcept _) fun receiver =>
    .bind (value.coerce_reads p.registry f.type) (f.store_keepsOnError p.registry receiver)

theorem FieldWriter.set_keepsOnError {r' : Registry} {f : Field} {policy : Policy}
    {i : FieldWriter} (compiled : compile r' f policy = .ok i) (p : Program)
    (target value : Value) : (i.set p target value).KeepsOnError := by
  obtain ⟨made, same⟩ := of_compile compiled
  rw [same, set_eq_answer p f policy made]
  exact answer_keepsOnError p f policy target value

theorem FieldFacade.write_keepsOnError {r' : Registry} {f : Field} {policy : Policy}
    {x : FieldFacade} (made : ofField r' f policy = .ok x) (p : Program)
    (target value : Value) : (x.write p target value).KeepsOnError := by
  rw [write_eq p made]
  exact FieldWriter.answer_keepsOnError p f policy target value

/-- Methods and constructors check the arguments and then the receiver before anything else,
whether they are invoked by descriptor, through a compiled routine or through a façade: if one of
them is not as it should be, the call fails for the first cause, no body is entered and the store is
as before. A write to a field that fails changes nothing, whichever way it is done. -/
theorem failures_before_effects (r : Registry) :
    (∀ m : Method, (∀ q ∈ m.params, q.type ≠ .void) → ∀ this args h,
      ChecksFirst r m.params (· = m.params.length) args (m.receiverError? r this) h
        (fun b => m.invoke ⟨r, b⟩ this args) ∧
      (∀ r' i, MethodInvoker.compile r' m .checked = .ok i →
        ChecksFirst r m.params (m.params.length ≤ ·) args (m.receiverError? r this) h
          fun b => i.invoke ⟨r, b⟩ this args) ∧
      ∀ r' x, MethodFacade.ofMethod r' m = .ok x →
        ChecksFirst r m.params (· = m.params.length) args (m.receiverError? r this) h
          fun b => x.invoke ⟨r, b⟩ this args) ∧
    (∀ c : Constructor, (∀ q ∈ c.params, q.type ≠ .void) → ∀ args h,
      ChecksFirst r c.params (· = c.params.length) args none h (fun b => c.invoke ⟨r, b⟩ args) ∧
      (∀ r' i, ConstructorInvoker.compile r' c = .ok i →
        ChecksFirst r c.params (c.params.length ≤ ·) args none h fun b => i.invoke ⟨r, b⟩ args) ∧
      ∀ r' x, ConstructorFacade.ofConstructor r' c = .ok x →
        ChecksFirst r c.params (· = c.params.length) args none h
          fun b => x.invoke ⟨r, b⟩ args) ∧
    ∀ f : Field, ∀ target,
      (∀ s, (f.store r target s).KeepsOnError) ∧
      (∀ value, (f.write r target value).KeepsOnError) ∧
      ∀ r' policy b value,
        (∀ i, FieldWriter.compile r' f policy = .ok i →
          (i.set ⟨r, b⟩ target value).KeepsOnError) ∧
        ∀ x, FieldFacade.ofField r' f policy = .ok x →
          (x.write ⟨r, b⟩ target value).KeepsOnError := by
  refine ⟨fun m typed this args h => ?_, fun c typed args h => ?_, fun f target => ?_⟩
  · exact ⟨m.invoke_checksFirst r this args h,
      fun r' i compiled => MethodInvoker.invoke_checksFirst compiled typed r this args h,
      fun r' x made => MethodFacade.invoke_checksFirst made typed r this args h⟩
  · exact ⟨c.invoke_checksFirst r args h,
      fun r' i compiled => ConstructorInvoker.invoke_checksFirst compiled typed r args h,
      fun r' x made => ConstructorFacade.invoke_checksFirst made typed r args h⟩
  · refine ⟨f.store_keepsOnError r target, f.write_keepsOnError r target,
      fun r' policy b value => ?_⟩
    exact ⟨fun i compiled => FieldWriter.set_keepsOnError compiled ⟨r, b⟩ target value,
      fun x made => FieldFacade.write_keepsOnError made ⟨r, b⟩ target value⟩

/-- With no receiver and a text for a number it is the text that is reported, and with numbers it is
the receiver. An argument too many is refused by a façade, and one too few by a routine as well. -/
theorem failures_before_effects_between :
    (∀ q ∈ Interval.between.params, q.type ≠ .void) ∧
      (∀ q ∈ Interval.make.params, q.type ≠ .void) ∧
      FailsBeforeEntry
        (fun b => Interval.between.invoke ⟨Interval.program.registry, b⟩ .null
          #[.int32 3, .string "4"]) {} (.invalidCast "Int32" "String") ∧
      (∃ i, MethodInvoker.compile {} Interval.between .checked = .ok i ∧
        FailsBeforeEntry
          (fun b => i.invoke ⟨Interval.program.registry, b⟩ .null #[.int32 3, .int32 4, .null]) {}
          (.nullReference "receiver of Axis::Between")) ∧
      (∃ x, MethodFacade.ofMethod {} Interval.between = .ok x ∧
        ∃ e, FailsBeforeEntry
          (fun b => x.invoke ⟨Interval.program.registry, b⟩ .null #[.int32 3, .int32 4, .null]) {}
          e) ∧
      ∃ i, ConstructorInvoker.compile {} Interval.make = .ok i ∧
        ∃ e, FailsBeforeEntry (fun b => i.invoke ⟨Interval.program.registry, b⟩ #[.int32 3]) {}
          e := by
  have typed : ∀ q ∈ Interval.between.params, q.type ≠ .void := by decide
  have typed' : ∀ q ∈ Interval.make.params, q.type ≠ .void := by decide
  have compiled := MethodInvoker.compile_eq_ok {} (m := Interval.between) .checked (by decide)
    (by decide)
  have compiled' := ConstructorInvoker.compile_eq_ok {} (c := Interval.make) (by decide) (by decide)
  have made := MethodFacade.ofMethod_eq_ok {} (m := Interval.between) .checked (by decide)
    (by decide)
  obtain ⟨methods, constructors, _⟩ := failures_before_effects Interval.program.registry
  refine ⟨typed, typed', ?_, ⟨_, compiled, ?_⟩, ⟨_, made, ?_⟩, _, compiled', ?_⟩
  · have checks := (methods _ typed .null #[.int32 3, .string "4"] {}).1
    refine checks.argument rfl 1 _ rfl fun j before => ?_
    obtain rfl : j = 0 := Nat.lt_one_iff.mp before
    exact ⟨_, rfl⟩
  · have checks := (methods _ typed .null #[.int32 3, .int32 4, .null] {}).2.1 {} _ compiled
    refine checks.receiver (by decide) (fun j before => ?_) _ rfl
    have positions : j = 0 ∨ j = 1 := by
      have bound : j < 2 := before
      omega
    rcases positions with rfl | rfl
    · exact ⟨_, rfl⟩
    · exact ⟨_, rfl⟩
  · have checks := (methods _ typed .null #[.int32 3, .int32 4, .null] {}).2.2 {} _ made
    exact checks.refuses (.inl (by decide))
  · have checks := (constructors _ typed' #[.int32 3] {}).2.1 {} _ compiled'
    exact checks.refuses (.inl (by decide))

end MemberAccess
