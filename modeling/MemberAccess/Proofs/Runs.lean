import MemberAccess.Run

/-!
What a computation on the store can give, and whether it changes the store. Two ways of going on
after a computation are the same as soon as they are the same on the results that it can give.
-/

namespace MemberAccess.Run

theorem throw_bind (e : ε) (f : α → Run ε β) : (throw e : Run ε α) >>= f = throw e := rfl

/-- A sequence has a result exactly if both of its parts have one. -/
theorem bind_eq_ok {x : Run ε α} {f : α → Run ε β} {b : β} {h after : Heap} :
    (x >>= f) h = (.ok b, after) ↔
      ∃ a middle, x h = (.ok a, middle) ∧ f a middle = (.ok b, after) := by
  rw [bind_apply]
  constructor
  · intro same
    cases result : x h with
    | mk outcome middle =>
      rw [result] at same
      cases outcome with
      | error e => cases same
      | ok a => exact ⟨a, middle, rfl, same⟩
  · rintro ⟨a, middle, first, second⟩
    rw [first]
    exact second

/-- Results that an injective function makes alike were alike before. -/
theorem bind_pure_inj {f : α → β} (injective : ∀ a b, f a = f b → a = b) {x y : Run ε α} :
    (x >>= fun a => pure (f a)) = (y >>= fun a => pure (f a)) ↔ x = y := by
  refine ⟨fun same => ?_, fun same => same ▸ rfl⟩
  funext h
  have atStore := congrFun same h
  simp only [bind_apply, pure_apply] at atStore
  rcases first : x h with ⟨_ | a, after⟩ <;> rcases second : y h with ⟨_ | b, after'⟩ <;>
    rw [first, second] at atStore <;> grind

/-- On one store, only the result of the first part on it counts for what follows. -/
theorem bind_congr_at {x : Run ε α} {f g : α → Run ε β} {h : Heap}
    (same : ∀ a middle, x h = (.ok a, middle) → f a middle = g a middle) :
    (x >>= f) h = (x >>= g) h := by
  simp only [bind_apply]
  cases result : x h with
  | mk outcome middle =>
    cases outcome with
    | error e => rfl
    | ok a => exact same a middle result

/-- Whatever the store, a result satisfies `P` if there is one. -/
def Yields (x : Run ε α) (P : α → Prop) : Prop :=
  ∀ h a after, x h = (.ok a, after) → P a

theorem Yields.trivial (x : Run ε α) : x.Yields fun _ => True := fun _ _ _ _ => True.intro

theorem Yields.pure {P : α → Prop} {a : α} (holds : P a) : Yields (pure a : Run ε α) P := by
  intro h b after same
  cases same
  exact holds

theorem Yields.throw {P : α → Prop} (e : ε) : Yields (throw e : Run ε α) P := by
  intro h b after same
  cases same

theorem Yields.bind {x : Run ε α} {f : α → Run ε β} {P : α → Prop} {Q : β → Prop}
    (first : x.Yields P) (next : ∀ a, P a → (f a).Yields Q) : (x >>= f).Yields Q := by
  intro h b after same
  obtain ⟨a, middle, result, later⟩ := bind_eq_ok.mp same
  exact next a (first h a middle result) middle b after later

theorem Yields.mapError {x : Run ε α} {P : α → Prop} (f : ε → δ) (yields : x.Yields P) :
    (x.mapError f).Yields P := by
  intro h a after same
  cases result : x h with
  | mk outcome middle =>
    cases outcome with
    | error e =>
      simp only [Run.mapError, result] at same
      cases same
    | ok b =>
      simp only [Run.mapError, result] at same
      cases same
      exact yields h a after result

theorem Yields.bind_congr {x : Run ε α} {f g : α → Run ε β} {P : α → Prop}
    (yields : x.Yields P) (same : ∀ a, P a → f a = g a) : x >>= f = x >>= g := by
  funext h
  refine bind_congr_at fun a middle result => ?_
  rw [same a (yields h a middle result)]

/-- Whatever the store, a result satisfies `P` if there is one, and an error satisfies `E`. -/
def Ends (x : Run ε α) (P : α → Prop) (E : ε → Prop) : Prop :=
  ∀ h,
    match (x h).1 with
    | .ok a => P a
    | .error e => E e

namespace Ends

variable {P : α → Prop} {Q : β → Prop} {E : ε → Prop}

theorem pure {a : α} (holds : P a) : Ends (pure a : Run ε α) P E := fun _ => holds

theorem throw {e : ε} (holds : E e) : Ends (throw e : Run ε α) P E := fun _ => holds

theorem bind {x : Run ε α} {f : α → Run ε β} (first : x.Ends P E)
    (next : ∀ a, P a → (f a).Ends Q E) : (x >>= f).Ends Q E := by
  intro h
  have ended := first h
  rw [bind_apply]
  cases result : x h with
  | mk outcome middle =>
    rw [result] at ended
    cases outcome with
    | error e => exact ended
    | ok a => exact next a ended middle

theorem mono {x : Run ε α} {P' : α → Prop} (ends : x.Ends P E) (weaker : ∀ a, P a → P' a) :
    x.Ends P' E := by
  intro h
  have ended := ends h
  cases result : (x h).1 with
  | error e =>
    rw [result] at ended
    exact ended
  | ok a =>
    rw [result] at ended
    exact weaker a ended

theorem mapM {f : α → Run ε β} (list : List α) (each : ∀ a, (f a).Ends Q E) :
    (list.mapM f).Ends (fun _ => True) E := by
  induction list with
  | nil => exact .pure True.intro
  | cons a rest ih =>
    rw [List.mapM_cons]
    exact (each a).bind fun b _ => ih.bind fun bs _ => .pure True.intro

theorem of_ok {x : Run ε α} (ends : x.Ends P E) {h after : Heap} {a : α}
    (result : x h = (.ok a, after)) : P a := by
  have ended := ends h
  rwa [result] at ended

theorem of_error {x : Run ε α} (ends : x.Ends P E) {h after : Heap} {e : ε}
    (result : x h = (.error e, after)) : E e := by
  have ended := ends h
  rwa [result] at ended

end Ends

/-- Whether a computation takes every store to one that `R` relates it to, also where it fails. -/
def Respects (R : Heap → Heap → Prop) (x : Run ε α) : Prop :=
  ∀ h, R h (x h).2

theorem Respects.bind {R : Heap → Heap → Prop}
    (trans : ∀ before middle after, R before middle → R middle after → R before after)
    {x : Run ε α} {f : α → Run ε β} (first : x.Respects R) (next : ∀ a, (f a).Respects R) :
    (x >>= f).Respects R := by
  intro h
  have reached := first h
  rw [bind_apply]
  cases result : x h with
  | mk outcome middle =>
    rw [result] at reached
    cases outcome with
    | error e => exact reached
    | ok a => exact trans h middle _ reached (next a middle)

/-- Whether a computation leaves the store as it is. -/
def Reads (x : Run ε α) : Prop :=
  x.Respects fun before after => after = before

theorem Reads.pure (a : α) : Reads (pure a : Run ε α) := fun _ => rfl

theorem Reads.throw (e : ε) : Reads (throw e : Run ε α) := fun _ => rfl

theorem Reads.ofExcept (x : Except ε α) : Reads (ofExcept x) := fun _ => rfl

theorem Reads.get : Reads (get : Run ε Heap) := fun _ => rfl

theorem Reads.bind {x : Run ε α} {f : α → Run ε β} (first : x.Reads) (next : ∀ a, (f a).Reads) :
    (x >>= f).Reads :=
  Respects.bind (fun _ _ _ same later => later.trans same) first next

theorem Reads.mapM {f : α → Run ε β} (list : List α) (each : ∀ a, (f a).Reads) :
    (list.mapM f).Reads := by
  induction list with
  | nil => exact .pure []
  | cons a rest ih =>
    rw [List.mapM_cons]
    exact .bind (each a) fun b => .bind ih fun bs => .pure (b :: bs)

/-- Of computations that only read, the first one that fails decides. -/
theorem Reads.mapM_eq_error {f : α → Run ε β} (each : ∀ a, (f a).Reads) {list : List α} {h : Heap}
    {i : Nat} {a : α} {e : ε} (found : list[i]? = some a) (failed : (f a h).1 = .error e)
    (earlier : ∀ j < i, ∀ b, list[j]? = some b → ∃ s, (f b h).1 = .ok s) :
    list.mapM f h = (.error e, h) := by
  induction list generalizing i with
  | nil => cases found
  | cons c rest ih =>
    rw [List.mapM_cons, bind_apply]
    cases i with
    | zero =>
      cases found
      have result : f a h = (.error e, h) := Prod.ext failed (each a h)
      rw [result]
    | succ i =>
      obtain ⟨s, accepted⟩ := earlier 0 (Nat.zero_lt_succ i) c rfl
      have result : f c h = (.ok s, h) := Prod.ext accepted (each c h)
      have later := ih found fun j before b found =>
        earlier (j + 1) (Nat.succ_lt_succ before) b found
      rw [result]
      simp only [bind_apply, later]

theorem Reads.mapM_eq_ok {f : α → Run ε β} (each : ∀ a, (f a).Reads) {list : List α} {h : Heap}
    (accepted : ∀ a ∈ list, ∃ s, (f a h).1 = .ok s) :
    ∃ results, list.mapM f h = (.ok results, h) := by
  induction list with
  | nil => exact ⟨[], rfl⟩
  | cons a rest ih =>
    obtain ⟨s, first⟩ := accepted a List.mem_cons_self
    have result : f a h = (.ok s, h) := Prod.ext first (each a h)
    obtain ⟨results, later⟩ := ih fun b mem => accepted b (List.mem_cons_of_mem a mem)
    refine ⟨s :: results, ?_⟩
    rw [List.mapM_cons, bind_apply, result]
    simp only [bind_apply, later, pure_apply]

theorem Reads.respects {R : Heap → Heap → Prop} (refl : ∀ h, R h h) {x : Run ε α}
    (reads : x.Reads) : x.Respects R := by
  intro h
  rw [reads h]
  exact refl h

theorem Reads.eq_of_ok {x : Run ε α} (reads : x.Reads) {h after : Heap} {a : α}
    (result : x h = (.ok a, after)) : after = h := by
  have kept := reads h
  rwa [result] at kept

/-- Discarding what replaces the result of a computation leaves the computation. -/
theorem discard_bind_pure (x : Run ε Unit) (a : α) :
    discard (x >>= fun _ => pure a) = x := by
  funext h
  show ExceptT.map _ (ExceptT.bind x _) h = x h
  simp only [ExceptT.map, ExceptT.bind, ExceptT.mk, bind, StateT.bind, ExceptT.bindCont]
  cases x h with
  | mk outcome after => cases outcome <;> rfl

end MemberAccess.Run
