import MemberAccess.Code.Check

/-!
The check of a body, read as a walk over depths. Code without `ret` that stays in scope and never
takes more than there is changes a depth and a peak; two pieces of such code compose, and the check
of a whole body is the walk over what stands before its `ret`.
-/

namespace MemberAccess.Code

/-- Whether the operand of an instruction names something that is declared. -/
def Instr.inScope (arity declared : Nat) : Instr → Bool
  | ldarg i => i.toNat < arity
  | ldloc i | stloc i => i.toNat < declared
  | _ => true

/-- Stack depth after an instruction. -/
def Instr.depthAfter (i : Instr) (depth : Nat) : Nat :=
  depth - i.pops + i.pushes

/-- Bytes taken by consecutive instructions. -/
def codeSize : List Instr → Nat
  | [] => 0
  | i :: rest => i.size + codeSize rest

def depthAfter : List Instr → Nat → Nat
  | [], depth => depth
  | i :: rest, depth => depthAfter rest (i.depthAfter depth)

def peakAfter : List Instr → Nat → Nat → Nat
  | [], _, peak => peak
  | i :: rest, depth, peak => peakAfter rest (i.depthAfter depth) (max peak (i.depthAfter depth))

/-- Code without `ret` that can be walked over from `depth`. -/
def Admissible (arity declared : Nat) : List Instr → Nat → Prop
  | [], _ => True
  | i :: rest, depth =>
    i ≠ .ret ∧ i.inScope arity declared = true ∧ i.pops ≤ depth ∧
      Admissible arity declared rest (i.depthAfter depth)

theorem depthAfter_append (front rest : List Instr) (depth : Nat) :
    depthAfter (front ++ rest) depth = depthAfter rest (depthAfter front depth) := by
  induction front generalizing depth with
  | nil => rfl
  | cons i front ih => exact ih (i.depthAfter depth)

theorem peakAfter_append (front rest : List Instr) (depth peak : Nat) :
    peakAfter (front ++ rest) depth peak =
      peakAfter rest (depthAfter front depth) (peakAfter front depth peak) := by
  induction front generalizing depth peak with
  | nil => rfl
  | cons i front ih => exact ih (i.depthAfter depth) (max peak (i.depthAfter depth))

theorem admissible_append {arity declared : Nat} {front rest : List Instr} {depth : Nat} :
    Admissible arity declared (front ++ rest) depth ↔
      Admissible arity declared front depth ∧
        Admissible arity declared rest (depthAfter front depth) := by
  induction front generalizing depth with
  | nil => simp [Admissible, depthAfter]
  | cons i front ih =>
    simp only [List.cons_append, Admissible, depthAfter, ih]
    exact ⟨fun ⟨a, b, c, d, e⟩ => ⟨⟨a, b, c, d⟩, e⟩, fun ⟨⟨a, b, c, d⟩, e⟩ => ⟨a, b, c, d, e⟩⟩

theorem le_peakAfter (code : List Instr) (depth peak : Nat) : peak ≤ peakAfter code depth peak := by
  induction code generalizing depth peak with
  | nil => exact Nat.le_refl peak
  | cons i rest ih => exact Nat.le_trans (Nat.le_max_left peak _) (ih (i.depthAfter depth) _)

theorem depthAfter_le_peakAfter (code : List Instr) {depth peak : Nat} (started : depth ≤ peak) :
    depthAfter code depth ≤ peakAfter code depth peak := by
  induction code generalizing depth peak with
  | nil => exact started
  | cons i rest ih => exact ih (Nat.le_max_right peak (i.depthAfter depth))

/-- A walk over admissible code from one depth and peak to another. -/
structure Walk (arity declared : Nat) (code : List Instr) (depth peak depth' peak' : Nat) :
    Prop where
  admissible : Admissible arity declared code depth
  depth_eq : depthAfter code depth = depth'
  peak_eq : peakAfter code depth peak = peak'

namespace Walk

variable {arity declared depth peak : Nat}

theorem nil : Walk arity declared [] depth peak depth peak := ⟨True.intro, rfl, rfl⟩

theorem nil_of_eq {depth' : Nat} (same : depth = depth') :
    Walk arity declared [] depth peak depth' peak := ⟨True.intro, same, rfl⟩

theorem single {i : Instr} (notRet : i ≠ .ret) (named : i.inScope arity declared = true)
    (enough : i.pops ≤ depth) :
    Walk arity declared [i] depth peak (i.depthAfter depth) (max peak (i.depthAfter depth)) :=
  ⟨⟨notRet, named, enough, True.intro⟩, rfl, rfl⟩

theorem append {front rest : List Instr} {depth' peak' depth'' peak'' : Nat}
    (first : Walk arity declared front depth peak depth' peak')
    (second : Walk arity declared rest depth' peak' depth'' peak'') :
    Walk arity declared (front ++ rest) depth peak depth'' peak'' := by
  obtain ⟨walked, rfl, rfl⟩ := first
  refine ⟨admissible_append.mpr ⟨walked, second.admissible⟩, ?_, ?_⟩
  · rw [depthAfter_append]
    exact second.depth_eq
  · rw [peakAfter_append]
    exact second.peak_eq

end Walk

namespace Body

theorem operandError?_of_inScope {arity declared : Nat} {i : Instr} (offset : Nat)
    (named : i.inScope arity declared = true) : operandError? arity declared offset i = none := by
  cases i <;> simp_all [operandError?, Instr.inScope]

/-- The check walks over admissible code and goes on behind it. -/
theorem checkFrom_append {arity declared : Nat} (expected : Nat) {front : List Instr}
    (rest : List Instr) (offset : Nat) {depth : Nat} (peak : Nat)
    (walked : Admissible arity declared front depth) :
    checkFrom arity declared expected (front ++ rest) offset depth peak =
      checkFrom arity declared expected rest (offset + codeSize front) (depthAfter front depth)
        (peakAfter front depth peak) := by
  induction front generalizing offset depth peak with
  | nil => rfl
  | cons i front ih =>
    obtain ⟨notRet, named, enough, later⟩ := walked
    -- Offsets only label errors, but both sides have to arrive at the same one.
    have same := ih (offset + i.size) (max peak (i.depthAfter depth)) later
    have behind : offset + i.size + codeSize front = offset + codeSize (i :: front) :=
      Nat.add_assoc offset i.size (codeSize front)
    rw [behind] at same
    rw [List.cons_append, checkFrom, operandError?_of_inScope offset named]
    simp only [if_neg notRet, if_neg (Nat.not_lt.mpr enough)]
    exact same

theorem inScope_of_operandError? {arity declared offset : Nat} {i : Instr}
    (none : operandError? arity declared offset i = none) : i.inScope arity declared = true := by
  cases i <;> simp_all [operandError?, Instr.inScope]

/-- Code that the check accepts is a walk that ends in front of its only `ret`. -/
theorem walk_of_checkFrom {arity declared expected : Nat} {code : List Instr}
    {offset depth peak n : Nat}
    (passed : checkFrom arity declared expected code offset depth peak = .ok n) :
    ∃ front, code = front ++ [.ret] ∧ Walk arity declared front depth peak expected n := by
  induction code generalizing offset depth peak with
  | nil => cases passed
  | cons i rest ih =>
    rw [checkFrom] at passed
    cases named : operandError? arity declared offset i with
    | some e =>
      rw [named] at passed
      cases passed
    | none =>
      rw [named] at passed
      by_cases last : i = .ret
      · simp only [if_pos last] at passed
        by_cases balanced : depth = expected
        · by_cases empty : rest.isEmpty
          · rw [if_neg (by simp [balanced]), if_pos empty] at passed
            cases passed
            exact ⟨[], by simp [last, List.isEmpty_iff.mp empty], .nil_of_eq balanced⟩
          · rw [if_neg (by simp [balanced]), if_neg empty] at passed
            cases passed
        · rw [if_pos (by simp [balanced])] at passed
          cases passed
      · simp only [if_neg last] at passed
        by_cases enough : depth < i.pops
        · rw [if_pos enough] at passed
          cases passed
        · rw [if_neg enough] at passed
          obtain ⟨front, same, walked⟩ := ih passed
          have first : Walk arity declared [i] depth peak _ _ :=
            .single last (inScope_of_operandError? named) (Nat.not_lt.mp enough)
          exact ⟨i :: front, congrArg (i :: ·) same, first.append walked⟩

/-- A body passes if a walk over its code reaches a closing `ret` at the promised depth. -/
theorem check_eq_ok {b : Body} {declared peak : Nat} {front : List Instr}
    (size : b.locals.size = declared) (code : b.code.toList = front ++ [.ret])
    (walk : Walk b.signature.arity declared front 0 0
      (if b.signature.returnsValue then 1 else 0) peak) :
    b.check = .ok peak := by
  rw [check, size, code, checkFrom_append _ [.ret] 0 0 walk.admissible, walk.depth_eq, walk.peak_eq]
  simp [checkFrom, operandError?]

theorem toRoutine_eq_ok {b : Body} {n : Nat} (passed : b.check = .ok n) :
    b.toRoutine = .ok ⟨b, n, passed⟩ := by
  unfold toRoutine
  split
  · next k same =>
    have peaks : n = k := Except.ok.inj (passed.symm.trans same)
    subst peaks
    rfl
  · next e same => exact absurd (passed.symm.trans same) (by simp)

theorem body_of_toRoutine {b : Body} {f : Routine} (accepted : b.toRoutine = .ok f) :
    f.body = b := by
  unfold toRoutine at accepted
  split at accepted
  · cases accepted
    rfl
  · cases accepted

end Body

end MemberAccess.Code
