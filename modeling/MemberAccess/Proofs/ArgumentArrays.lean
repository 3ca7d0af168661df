import MemberAccess.Proofs.EarlyFailures

/-!
Argument arrays of any length. A compiled routine takes as many elements as it has parameters and
does not look behind them. If there are fewer, it converts those that there are and then fails at
the first that is missing, before it looks at the receiver.
-/

namespace MemberAccess

open Code Invoker

section

variable {r : Registry} {params : List Param} {args : Array Value}

/-- Only the arguments that have parameters are converted. -/
theorem unboxAll_take_arguments (r : Registry) (enough : params.length ≤ args.size) :
    unboxAll r params (args.take params.length) = unboxAll r params args := by
  have pairs : params.zip args.toList = _ := List.zip_eq_zip_take_min
  have count : min params.length args.toList.length = params.length := Nat.min_eq_left enough
  rw [count, List.take_length] at pairs
  rw [unboxAll, unboxAll, pairs, Array.take_eq_extract, Array.toList_extract]
  rfl

/-- Only the parameters that have arguments are looked at. -/
theorem unboxAll_take_params (r : Registry) (short : args.size ≤ params.length) :
    unboxAll r (params.take args.size) args = unboxAll r params args := by
  have pairs : params.zip args.toList = _ := List.zip_eq_zip_take_min
  have count : min params.length args.toList.length = args.toList.length := Nat.min_eq_right short
  rw [count, List.take_length] at pairs
  rw [unboxAll, unboxAll, pairs]
  rfl

/-- Conversion by position is conversion of the first elements, one for each parameter. -/
theorem convertFrom_take (enough : params.length ≤ args.size) (few : params.length < 65535)
    (typed : ∀ q ∈ params, q.type ≠ .void) :
    convertFrom r (args.take params.length) 0 params = convertFrom r args 0 params := by
  have room : params.length ≤ (args.take params.length).size := by
    simp [enough]
  rw [convertFrom_eq_unboxAll r room few typed, convertFrom_eq_unboxAll r enough few typed,
    unboxAll_take_arguments r enough]

theorem convertFrom_append (r : Registry) (a : Array Value) (i : Nat) (front rest : List Param) :
    convertFrom r a i (front ++ rest) = (do
      let slots ← convertFrom r a i front
      let slots' ← convertFrom r a (i + front.length) rest
      return slots ++ slots') := by
  induction front generalizing i with
  | nil => simp [convertFrom]
  | cons q front ih =>
    have behind : i + 1 + front.length = i + (q :: front).length := by
      rw [List.length_cons]
      omega
    simp only [List.cons_append, convertFrom, ih, behind, bind_assoc, pure_bind]

/-- Too short an array is converted as far as it goes; then the first element is missing. -/
theorem convertFrom_of_size_lt (r : Registry) (short : args.size < params.length)
    (few : params.length < 65535) (typed : ∀ q ∈ params, q.type ≠ .void) :
    convertFrom r args 0 params =
      unboxAll r params args >>= fun _ => throw (.indexOutOfRange args.size args.size) := by
  have held : (params.take args.size).length = args.size := by
    rw [List.length_take]
    omega
  have front : convertFrom r args 0 (params.take args.size) = unboxAll r params args := by
    have typed' : ∀ q ∈ params.take args.size, q.type ≠ .void := fun q mem =>
      typed q (List.mem_of_mem_take mem)
    rw [convertFrom_eq_unboxAll r (Nat.le_of_eq held) (by omega) typed',
      unboxAll_take_params r (Nat.le_of_lt short)]
  have missing : convertFrom r args args.size (params.drop args.size) =
      throw (.indexOutOfRange args.size args.size) := by
    rw [List.drop_eq_getElem_cons short, convertFrom,
      elementAt_of_size_le (Nat.le_refl _) (by omega), Run.ofExcept_error, Run.throw_bind]
  have split := convertFrom_append r args 0 (params.take args.size) (params.drop args.size)
  rw [List.take_append_drop, held, Nat.zero_add, front, missing] at split
  simpa only [Run.throw_bind] using split

end

/-- Whether a call takes its arguments by position from an array of any length. -/
structure TakesByPosition (r : Registry) (params : List Param)
    (call : Value → Array Value → RunM Value) : Prop where
  /-- Nothing behind the last argument shows. -/
  ignoresRest : ∀ this args before, params.length ≤ args.size →
    call this args before = call this (args.take params.length) before
  /-- Of the arguments of too short an array, the first that does not convert is reported. -/
  reportsArgument : ∀ args before, args.size < params.length →
    ∀ i e, argument? r params args before i = some (.error e) →
      (∀ j < i, ∃ s, argument? r params args before j = some (.ok s)) →
      ∀ this, call this args before = (.error e, before)
  /-- If all of them convert, the first that is missing is. -/
  reportsMissing : ∀ args before, args.size < params.length →
    (∀ i < args.size, ∃ s, argument? r params args before i = some (.ok s)) →
      ∀ this, call this args before = (.error (.indexOutOfRange args.size args.size), before)
  /-- The receiver does not show as long as there are arguments missing. -/
  ignoresReceiver : ∀ args before, args.size < params.length →
    ∀ this this', call this args before = call this' args before

/-- It is sufficient that a call converts its arguments by position before it does anything else. -/
theorem TakesByPosition.of_conversion {r : Registry} {params : List Param}
    {call : Value → Array Value → RunM Value} (rest : Value → List Slot → RunM Value)
    (few : params.length < 65535) (typed : ∀ q ∈ params, q.type ≠ .void)
    (shape : ∀ this args, call this args = convertFrom r args 0 params >>= rest this) :
    TakesByPosition r params call := by
  have short (this : Value) (args : Array Value) (short : args.size < params.length) :
      call this args =
        unboxAll r params args >>= fun _ => throw (.indexOutOfRange args.size args.size) := by
    rw [shape, convertFrom_of_size_lt r short few typed, bind_assoc]
    simp only [Run.throw_bind]
  constructor
  case ignoresRest =>
    intro this args before enough
    rw [shape, shape, convertFrom_take enough few typed]
  case reportsArgument =>
    intro args before lacking i e rejected earlier this
    rw [short this args lacking, Run.bind_apply, unboxAll_eq_error rejected earlier]
  case reportsMissing =>
    intro args before lacking accepted this
    obtain ⟨slots, converted⟩ := unboxAll_eq_ok fun i _ bound => accepted i bound
    rw [short this args lacking, Run.bind_apply, converted]
    rfl
  case ignoresReceiver =>
    intro args before lacking this this'
    rw [short this args lacking, short this' args lacking]

namespace MethodInvoker

theorem takesByPosition {r' : Registry} {m : Method} {policy : Policy} {i : MethodInvoker}
    (compiled : compile r' m policy = .ok i) (typed : ∀ q ∈ m.params, q.type ≠ .void)
    (p : Program) : TakesByPosition p.registry m.params (i.invoke p) := by
  obtain ⟨_, _, few⟩ := of_compile compiled
  apply TakesByPosition.of_conversion
    (fun this slots => m.enter p policy this slots >>= finish p.registry m) few typed
  exact invoke_of_compile compiled p

end MethodInvoker

namespace ConstructorInvoker

theorem takesByPosition {r' : Registry} {c : Constructor} {i : ConstructorInvoker}
    (compiled : compile r' c = .ok i) (typed : ∀ q ∈ c.params, q.type ≠ .void) (p : Program) :
    TakesByPosition p.registry c.params fun _ => i.invoke p := by
  obtain ⟨_, _, few⟩ := of_compile compiled
  apply TakesByPosition.of_conversion (fun _ slots => finish p c slots) few typed
  exact fun _ => invoke_of_compile compiled p

end ConstructorInvoker

/-- Compiled methods and constructors take their arguments by position. Elements behind the last
parameter do not show; of the elements of too short an array the first that does not convert is
reported, and else the first one that is missing, whatever the receiver is. -/
theorem arguments_by_position (r : Registry) :
    (∀ m policy i, MethodInvoker.compile r m policy = .ok i → (∀ q ∈ m.params, q.type ≠ .void) →
      ∀ p : Program, TakesByPosition p.registry m.params (i.invoke p)) ∧
    ∀ c i, ConstructorInvoker.compile r c = .ok i → (∀ q ∈ c.params, q.type ≠ .void) →
      ∀ p : Program, TakesByPosition p.registry c.params fun _ => i.invoke p :=
  ⟨fun _ _ _ => MethodInvoker.takesByPosition, fun _ _ => ConstructorInvoker.takesByPosition⟩

/-- An axis makes an interval of the first two numbers, whatever follows them. Of a text alone it
reports that it is none, although there is no axis, and of one number that another is missing. -/
theorem arguments_by_position_between :
    (∀ q ∈ Interval.between.params, q.type ≠ .void) ∧
      (∀ q ∈ Interval.make.params, q.type ≠ .void) ∧
      (∃ i, MethodInvoker.compile {} Interval.between .trusted = .ok i ∧
        i.invoke Interval.program (.object ⟨.classType 0, 0⟩) #[.int32 3, .int32 4, .string "5"]
            { objects := #[[]] } =
          i.invoke Interval.program (.object ⟨.classType 0, 0⟩) #[.int32 3, .int32 4]
            { objects := #[[]] } ∧
        i.invoke Interval.program .null #[.string "3"] {} =
          (.error (.invalidCast "Int32" "String"), {}) ∧
        i.invoke Interval.program (.string "axis") #[.int32 3] {} =
          (.error (.indexOutOfRange 1 1), {})) ∧
      ∃ i, ConstructorInvoker.compile {} Interval.make = .ok i ∧
        i.invoke Interval.program #[] {} = (.error (.indexOutOfRange 0 0), {}) := by
  have typed : ∀ q ∈ Interval.between.params, q.type ≠ .void := by decide
  have typed' : ∀ q ∈ Interval.make.params, q.type ≠ .void := by decide
  have compiled := MethodInvoker.compile_eq_ok {} (m := Interval.between) .trusted (by decide)
    (by decide)
  have compiled' := ConstructorInvoker.compile_eq_ok {} (c := Interval.make) (by decide) (by decide)
  obtain ⟨methods, constructors⟩ := arguments_by_position {}
  have taken := methods _ _ _ compiled typed Interval.program
  have taken' := constructors _ _ compiled' typed' Interval.program
  refine ⟨typed, typed', ⟨_, compiled, ?_, ?_, ?_⟩, _, compiled', ?_⟩
  · exact taken.ignoresRest _ #[.int32 3, .int32 4, .string "5"] _ (by decide)
  · apply taken.reportsArgument #[.string "3"] {} (by decide) 0 _ rfl
    intro j before
    cases before
  · apply taken.reportsMissing #[.int32 3] {} (by decide)
    intro j before
    obtain rfl : j = 0 := Nat.lt_one_iff.mp before
    exact ⟨_, rfl⟩
  · apply taken'.reportsMissing #[] {} (by decide) _ .null
    intro j before
    cases before

end MemberAccess
