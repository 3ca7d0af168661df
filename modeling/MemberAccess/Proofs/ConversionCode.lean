import MemberAccess.Proofs.CallAgreement

/-!
The code of conversions against the rules of conversion. What the directives for converting emit
unboxes and boxes as members accessed by their descriptors do, wherever there is something to
convert. Nothing is converted to `Void`: a cast to it lets null pass, which unboxing does not. And
nothing is emitted for boxing a reference, so the closing `ret` takes references of any type and
turns everything else away as ill-formed code, where boxing reports a cast.
-/

namespace MemberAccess

open Code

namespace Value

/-- Whether a cast to `t` lets the value pass. -/
def passes (r : Registry) (v : Value) (t : Ty) : Bool :=
  v.runtimeType?.all (r.assignable t ·)

theorem cast_of_passes {r : Registry} {v : Value} {t : Ty} (passes : v.passes r t = true) :
    v.cast r t = .ok v := by
  cases v <;> simp_all [Value.passes, cast, runtimeType?]

theorem cast_of_not_passes {r : Registry} {v : Value} {t : Ty} (stuck : v.passes r t = false) :
    v.cast r t = .error (.invalidCast (r.name t) (v.typeName r)) := by
  cases v <;> simp_all [Value.passes, cast, runtimeType?, typeName]

theorem unbox_void (r : Registry) (v : Value) :
    v.unbox r .void = throw (.invalidCast (r.name .void) (v.typeName r)) := by
  cases v <;> rfl

/-- Converting is unboxing, but for `Void`, to which nothing unboxes. -/
theorem coerce_eq_unbox_iff (r : Registry) (v : Value) (t : Ty) :
    v.coerce r t = v.unbox r t ↔ ¬ (t = .void ∧ v.passes r .void = true) := by
  by_cases typed : t = .void
  · subst typed
    have cast : v.coerce r .void = Run.ofExcept ((v.cast r .void).map .ref) := rfl
    rw [cast, unbox_void]
    cases passes : v.passes r .void with
    | false => simp [cast_of_not_passes passes, Except.map]
    | true =>
      simp only [cast_of_passes passes, and_self, not_true, iff_false]
      intro same
      cases congrFun same {}
  · simp [v.coerce_eq_unbox r typed, typed]

end Value

namespace Slot

/-- What is no value type is not boxed, but has to be a reference. -/
theorem handOver_ref (r : Registry) (v : Value) {t : Ty} (notValue : t.isValueType = false) :
    (ref v).handOver r t = pure v := by
  unfold handOver
  rw [if_neg (Bool.eq_false_iff.mp notValue)]

theorem handOver_of_not_reference {r : Registry} {s : Slot} {t : Ty}
    (notValue : t.isValueType = false) (unboxed : ∀ v, s ≠ .ref v) :
    s.handOver r t = .fail (.notReference (s.kindText r)) := by
  unfold handOver
  rw [if_neg (Bool.eq_false_iff.mp notValue)]
  cases s with
  | ref v => exact absurd rfl (unboxed v)
  | _ => rfl

theorem box_of_not_reference {r : Registry} {s : Slot} {t : Ty} (notValue : t.isValueType = false)
    (unboxed : ∀ v, s ≠ .ref v) : s.box r t = throw (.invalidCast (r.name t) (s.kindText r)) := by
  cases s with
  | ref v => exact absurd rfl (unboxed v)
  | _ => cases t <;> first | rfl | cases notValue

/-- Handing a slot over is boxing it, if it can be boxed as a value type or is a reference already
and meant to be one. -/
theorem mapError_handOver_eq_box_iff (r : Registry) (s : Slot) (t : Ty) :
    (s.handOver r t).mapError ExecError.toInvokeError = s.box r t ↔
      t.isValueType = true ∨ t.isReferenceType = true ∧ ∃ v, s = .ref v := by
  constructor
  · intro same
    cases valueType : t.isValueType with
    | true => exact .inl rfl
    | false =>
      by_cases reference : ∃ v, s = .ref v
      · obtain ⟨v, rfl⟩ := reference
        rw [handOver_ref r v valueType] at same
        refine .inr ⟨?_, v, rfl⟩
        cases t with
        | void => cases congrFun same {}
        | _ => first | rfl | cases valueType
      · have unboxed : ∀ v, s ≠ .ref v := fun v is => reference ⟨v, is⟩
        rw [handOver_of_not_reference valueType unboxed, box_of_not_reference valueType unboxed]
          at same
        cases congrFun same {}
  · rintro (valueType | ⟨isReference, v, rfl⟩)
    · unfold handOver
      rw [if_pos valueType, ExecM.mapError_run]
    · refine mapError_handOver r ?_ fun _ => ⟨v, rfl⟩
      rintro rfl
      cases isReference

end Slot

namespace Code

/-- Emitted conversions agree with the rules of conversion, errors included, exactly if the target
is not `Void` or its cast turns the value away, and exactly if what is returned is of a value type
or a reference that is meant to be one. Otherwise the cast to `Void` lets the value pass, and `ret` takes
a reference and reports anything else as a fault of the code. -/
theorem conversions_agree_iff (p : Program) (args : Array Argument) (m : Machine) (t : Ty) :
    (∀ returnsValue v,
      (exec p returnsValue args (Directive.coerce t).code (m.push (.ref v))).mapError
            ExecError.toInvokeError =
          (v.unbox p.registry t >>= fun s => pure (m.push s)) ↔
        ¬ (t = .void ∧ v.passes p.registry .void = true)) ∧
    (∀ s : Slot,
      (exec p true args ((Directive.boxIfValueType t).code ++ Directive.ret.code)
            (m.push s)).mapError ExecError.toInvokeError =
          (s.box p.registry t >>= fun v => pure (m.finish v)) ↔
        t.isValueType = true ∨ t.isReferenceType = true ∧ ∃ v, s = .ref v) ∧
    (∀ returnsValue v,
      exec p returnsValue args (Directive.coerce .void).code (m.push (.ref v)) =
        ExecM.run (.ofExcept (v.cast p.registry .void)) >>= fun w => pure (m.push (.ref w))) ∧
    ∀ s : Slot,
      exec p true args ((Directive.boxIfValueType t).code ++ Directive.ret.code) (m.push s) =
        s.handOver p.registry t >>= fun v => pure (m.finish v) := by
  have returned (s : Slot) := exec_boxValue_finish p args t s m
  refine ⟨fun returnsValue v => ?coerced, fun s => ?boxed, fun returnsValue v => ?void, returned⟩
  case coerced =>
    have pushed : ∀ s s' : Slot, m.push s = m.push s' → s = s' := by
      intro s s' same
      simpa [Machine.push] using same
    have coerced : exec p returnsValue args (Directive.coerce t).code (m.push (.ref v)) =
        ExecM.run (v.coerce p.registry t) >>= fun s => pure (m.push s) := by
      rw [Directive.code, exec_singleton, step_coerce]
    rw [coerced, Run.mapError_bind, ExecM.mapError_run]
    exact (Run.bind_pure_inj pushed).trans (v.coerce_eq_unbox_iff p.registry t)
  case boxed =>
    have finished : ∀ v w : Value, m.finish v = m.finish w → v = w := by
      intro v w same
      simpa [Machine.finish] using same
    rw [Directive.code, Directive.code, returned, Run.mapError_bind]
    exact (Run.bind_pure_inj finished).trans (s.mapError_handOver_eq_box_iff p.registry t)
  case void =>
    have emitted : (Directive.coerce .void).code = [.castclass .void] := rfl
    rw [emitted, exec_singleton, step_castclass]

/-- An integer that is returned as a string, and null that is converted to `Void`. -/
theorem conversions_disagree :
    (exec Interval.program true #[] ((Directive.boxIfValueType .string).code ++ Directive.ret.code)
        (Machine.push { locals := #[] } (.int32 5))).mapError ExecError.toInvokeError {} =
      (.error (.invalidProgram "expected an object reference, found unboxed Int32"), {}) ∧
    (Slot.int32 5).box Interval.program.registry .string {} =
      (.error (.invalidCast "String" "Int32"), {}) ∧
    (exec Interval.program true #[] (Directive.coerce .void).code
        (Machine.push { locals := #[] } .null)).mapError ExecError.toInvokeError {} =
      (.ok (Machine.push { locals := #[] } .null), {}) ∧
    Value.null.unbox Interval.program.registry .void {} =
      (.error (.invalidCast "Void" "null"), {}) :=
  ⟨rfl, rfl, rfl, rfl⟩

end Code

end MemberAccess
