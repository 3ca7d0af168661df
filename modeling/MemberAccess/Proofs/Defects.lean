import MemberAccess.Proofs.CheckedRuns

/-!
What the check accepts and what it reports. A body is accepted exactly if it is well-formed, which
is said here without following the stack: the height in front of an instruction is the sum of the
effects of the instructions before it. Otherwise the first defective instruction is reported, with
the offset that the listing shows for it.
-/

namespace MemberAccess.Code

/-- What an instruction adds to the height of the stack. -/
def Instr.effect (i : Instr) : Int := i.pushes - i.pops

/-- The height of the stack behind code that starts on an empty one. -/
def height : List Instr → Int
  | [] => 0
  | i :: rest => i.effect + height rest

@[simp] theorem height_nil : height [] = 0 := rfl

@[simp] theorem height_cons (i : Instr) (rest : List Instr) :
    height (i :: rest) = i.effect + height rest := rfl

@[simp] theorem height_append (front rest : List Instr) :
    height (front ++ rest) = height front + height rest := by
  induction front with
  | nil => exact (Int.zero_add _).symm
  | cons i front ih => rw [List.cons_append, height, ih, height, Int.add_assoc]

@[simp] theorem effect_ret : Instr.ret.effect = 0 := rfl

theorem codeSize_append (front rest : List Instr) :
    codeSize (front ++ rest) = codeSize front + codeSize rest := by
  induction front with
  | nil => exact (Nat.zero_add _).symm
  | cons i front ih => rw [List.cons_append, codeSize, ih, codeSize, Nat.add_assoc]

/-- An instruction of code with one more at its end is the last one or comes before it. -/
theorem split_of_concat {front before after : List α} {x i : α}
    (split : front ++ [x] = before ++ i :: after) :
    front = before ∧ x = i ∨ ∃ rest, front = before ++ i :: rest := by
  rcases List.eq_nil_or_concat after with rfl | ⟨rest, y, rfl⟩
  · obtain ⟨same, last⟩ := List.append_inj' split rfl
    exact .inl ⟨same, List.head_eq_of_cons_eq last⟩
  · rw [List.concat_eq_append, ← List.cons_append, ← List.append_assoc] at split
    exact .inr ⟨rest, (List.append_inj' split rfl).1⟩

/-- Whether an operand is declared is a question about arguments and locals only. -/
theorem Instr.inScope_iff {arity declared : Nat} {i : Instr} :
    i.inScope arity declared = true ↔
      (∀ x, i.argument? = some x → x.toNat < arity) ∧
        ∀ x, i.local? = some x → x.toNat < declared := by
  cases i <;> simp [inScope]

theorem Instr.exists_undeclared {arity declared : Nat} {i : Instr}
    (undeclared : ¬ i.inScope arity declared = true) :
    (∃ x, i.argument? = some x ∧ arity ≤ x.toNat) ∨
      ∃ x, i.local? = some x ∧ declared ≤ x.toNat := by
  cases i <;> simp_all [inScope]

section Heights

variable {arity declared : Nat}

/-- As long as there is enough to take, the depth that the check follows is the height. -/
theorem depthAfter_eq_height {code : List Instr} {depth : Nat}
    (walked : Admissible arity declared code depth) :
    (depthAfter code depth : Int) = depth + height code := by
  induction code generalizing depth with
  | nil => simp [depthAfter]
  | cons i rest ih =>
    obtain ⟨_, _, enough, later⟩ := walked
    rw [depthAfter, ih later, height_cons, Instr.depthAfter, Instr.effect]
    omega

theorem admissible_iff {code : List Instr} {depth : Nat} :
    Admissible arity declared code depth ↔
      .ret ∉ code ∧ (∀ i ∈ code, i.inScope arity declared = true) ∧
        ∀ before i after, code = before ++ i :: after → (i.pops : Int) ≤ depth + height before := by
  constructor
  · intro walked
    refine ⟨?_, ?_, ?_⟩
    · intro mem
      obtain ⟨before, after, rfl⟩ := List.append_of_mem mem
      exact (admissible_append.mp walked).2.1 rfl
    · intro i mem
      obtain ⟨before, after, rfl⟩ := List.append_of_mem mem
      exact (admissible_append.mp walked).2.2.1
    · rintro before i after rfl
      obtain ⟨front, _, _, enough, _⟩ := admissible_append.mp walked
      rw [← depthAfter_eq_height front]
      exact Int.ofNat_le.mpr enough
  · rintro ⟨none, named, enough⟩
    induction code generalizing depth with
    | nil => exact True.intro
    | cons i rest ih =>
      have first := enough [] i rest rfl
      rw [height_nil, Int.add_zero, Int.ofNat_le] at first
      refine ⟨fun same => none (same ▸ List.mem_cons_self), named i List.mem_cons_self, first, ?_⟩
      apply ih
      · exact fun mem => none (List.mem_cons_of_mem i mem)
      · exact fun j mem => named j (List.mem_cons_of_mem i mem)
      · rintro before j after rfl
        have later := enough (i :: before) j after rfl
        rw [height_cons, Instr.effect] at later
        rw [Instr.depthAfter]
        omega

/-- Code is admissible up to its end or up to an instruction that is not. -/
theorem admissible_or_split (code : List Instr) (depth : Nat) :
    Admissible arity declared code depth ∨
      ∃ front i rest, code = front ++ i :: rest ∧ Admissible arity declared front depth ∧
        ¬ Admissible arity declared [i] (depthAfter front depth) := by
  induction code generalizing depth with
  | nil => exact .inl True.intro
  | cons i rest ih =>
    by_cases first : Admissible arity declared [i] depth
    · rcases ih (i.depthAfter depth) with later | ⟨front, j, after, rfl, walked, stuck⟩
      · exact .inl (admissible_append.mpr ⟨first, later⟩)
      · exact .inr ⟨i :: front, j, after, rfl, admissible_append.mpr ⟨first, walked⟩, stuck⟩
    · exact .inr ⟨[], i, rest, rfl, True.intro, first⟩

end Heights

namespace Body

variable {b : Body}

/-- What is wrong with an instruction behind others. If several things are, the first of these
counts: it cannot be reached, its operand is not declared, the stack is not as it should be. -/
inductive Defect (b : Body) (before : List Instr) (i : Instr) : BodyError → Prop
  | unreachable (behind : .ret ∈ before) : b.Defect before i (.unreachableCode (codeSize before))
  | argument (x : Index) (ahead : .ret ∉ before) (names : i.argument? = some x)
      (missing : b.signature.arity ≤ x.toNat) :
      b.Defect before i (.argumentOutOfRange (codeSize before) x.toNat b.signature.arity)
  | slot (x : Index) (ahead : .ret ∉ before) (names : i.local? = some x)
      (missing : b.locals.size ≤ x.toNat) :
      b.Defect before i (.localOutOfRange (codeSize before) x.toNat b.locals.size)
  | imbalance (depth : Nat) (ahead : .ret ∉ before) (last : i = .ret)
      (reached : height before = depth) (unbalanced : depth ≠ b.promised) :
      b.Defect before i (.stackImbalance (codeSize before) depth b.promised)
  | underflow (depth : Nat) (ahead : .ret ∉ before)
      (named : i.inScope b.signature.arity b.locals.size = true)
      (reached : height before = depth) (few : depth < i.pops) :
      b.Defect before i (.stackUnderflow (codeSize before) i.mnemonic depth)

/-- Whether no instruction of the code is defective behind those before it. -/
def Faultless (b : Body) (code : List Instr) : Prop :=
  ∀ before i after, code = before ++ i :: after → ∀ e, ¬ b.Defect before i e

structure WellFormed (b : Body) : Prop where
  /-- The code ends in its only `ret`. -/
  ends : ∃ front, b.code.toList = front ++ [.ret] ∧ .ret ∉ front
  arguments : ∀ i ∈ b.code.toList, ∀ x, i.argument? = some x → x.toNat < b.signature.arity
  locals : ∀ i ∈ b.code.toList, ∀ x, i.local? = some x → x.toNat < b.locals.size
  /-- No instruction takes more than there is. -/
  enough : ∀ before i after, b.code.toList = before ++ i :: after → (i.pops : Int) ≤ height before
  balanced : ∀ before after, b.code.toList = before ++ .ret :: after → height before = b.promised

/-- Whether `n` is the greatest height behind an instruction. -/
structure IsPeak (b : Body) (n : Nat) : Prop where
  bounds : ∀ before i after, b.code.toList = before ++ i :: after → height (before ++ [i]) ≤ n
  attained : ∃ before i after, b.code.toList = before ++ i :: after ∧ height (before ++ [i]) = n

/-- Behind admissible code an instruction is admissible too, the closing `ret`, or defective. -/
theorem exists_defect {front : List Instr} {i : Instr}
    (walked : Admissible b.signature.arity b.locals.size front 0)
    (stuck : ¬ Admissible b.signature.arity b.locals.size [i] (depthAfter front 0)) :
    i = .ret ∧ height front = b.promised ∨ ∃ e, b.Defect front i e := by
  have ahead := (admissible_iff.mp walked).1
  have reached : height front = depthAfter front 0 := by
    rw [depthAfter_eq_height walked, Int.ofNat_zero, Int.zero_add]
  by_cases last : i = .ret
  · by_cases balanced : depthAfter front 0 = b.promised
    · exact .inl ⟨last, balanced ▸ reached⟩
    · exact .inr ⟨_, .imbalance _ ahead last reached balanced⟩
  · by_cases named : i.inScope b.signature.arity b.locals.size = true
    · have few : depthAfter front 0 < i.pops := Nat.lt_of_not_le fun enough =>
        stuck ⟨last, named, enough, True.intro⟩
      exact .inr ⟨_, .underflow _ ahead named reached few⟩
    · rcases Instr.exists_undeclared named with ⟨x, names, missing⟩ | ⟨x, names, missing⟩
      · exact .inr ⟨_, .argument x ahead names missing⟩
      · exact .inr ⟨_, .slot x ahead names missing⟩

theorem Faultless.of_admissible {code : List Instr}
    (walked : Admissible b.signature.arity b.locals.size code 0) : b.Faultless code := by
  rintro before i after rfl e defect
  obtain ⟨front, notRet, named, enough, _⟩ := admissible_append.mp walked
  have ahead := (admissible_iff.mp front).1
  have reached := depthAfter_eq_height front
  obtain ⟨arguments, locals⟩ := Instr.inScope_iff.mp named
  cases defect with
  | unreachable behind => exact ahead behind
  | argument x _ names missing => exact Nat.not_lt.mpr missing (arguments x names)
  | slot x _ names missing => exact Nat.not_lt.mpr missing (locals x names)
  | imbalance depth _ last _ _ => exact notRet last
  | underflow depth _ _ same few => omega

/-- The closing `ret` is all that faultless code can have besides admissible code. -/
theorem Faultless.concat_ret {front : List Instr}
    (walked : Admissible b.signature.arity b.locals.size front 0)
    (balanced : height front = b.promised) : b.Faultless (front ++ [.ret]) := by
  intro before i after split e defect
  rcases split_of_concat split with ⟨rfl, rfl⟩ | ⟨rest, inFront⟩
  · have ahead := (admissible_iff.mp walked).1
    have reached := depthAfter_eq_height walked
    cases defect with
    | unreachable behind => exact ahead behind
    | argument x _ names _ => cases names
    | slot x _ names _ => cases names
    | imbalance depth _ _ same unbalanced => omega
    | underflow depth _ _ _ few => cases few
  · exact Faultless.of_admissible walked before i rest inFront e defect

/-- Code is admissible, closed by a `ret` at the promised height, or defective somewhere. -/
theorem code_cases (b : Body) (code : List Instr) :
    Admissible b.signature.arity b.locals.size code 0 ∨
      (∃ front, code = front ++ [.ret] ∧
        Admissible b.signature.arity b.locals.size front 0 ∧ height front = b.promised) ∨
      ∃ before i after e, code = before ++ i :: after ∧ b.Defect before i e ∧
        b.Faultless before := by
  rcases admissible_or_split code 0 with walked | ⟨front, i, rest, rfl, walked, stuck⟩
  · exact .inl walked
  · rcases exists_defect walked stuck with ⟨rfl, balanced⟩ | ⟨e, defect⟩
    · cases rest with
      | nil => exact .inr (.inl ⟨front, rfl, walked, balanced⟩)
      | cons j after =>
        have behind : Instr.ret ∈ front ++ [.ret] := List.mem_append_right front List.mem_cons_self
        refine .inr (.inr ⟨front ++ [.ret], j, after, _, ?_, .unreachable behind,
          .concat_ret walked balanced⟩)
        rw [List.append_assoc, List.singleton_append]
    · exact .inr (.inr ⟨front, i, rest, e, rfl, defect, .of_admissible walked⟩)

theorem Faultless.admissible {code : List Instr} (faultless : b.Faultless code)
    (none : .ret ∉ code) : Admissible b.signature.arity b.locals.size code 0 := by
  rcases b.code_cases code with walked | ⟨front, rfl, _⟩ | ⟨before, i, after, e, split, defect, _⟩
  · exact walked
  · exact absurd (List.mem_append_right front List.mem_cons_self) none
  · exact absurd defect (faultless before i after split e)

/-- Faultless code with a `ret` ends in it. -/
theorem Faultless.exists_concat {code : List Instr} (faultless : b.Faultless code)
    (some : .ret ∈ code) :
    ∃ front, code = front ++ [.ret] ∧ Admissible b.signature.arity b.locals.size front 0 ∧
      height front = b.promised := by
  rcases b.code_cases code with walked | closed | ⟨before, i, after, e, split, defect, _⟩
  · exact absurd some (admissible_iff.mp walked).1
  · exact closed
  · exact absurd defect (faultless before i after split e)

/-- Code that is admissible up to a closing `ret` at the promised height is well-formed. -/
theorem WellFormed.of_admissible {front : List Instr} (code : b.code.toList = front ++ [.ret])
    (walked : Admissible b.signature.arity b.locals.size front 0)
    (balanced : height front = b.promised) : b.WellFormed := by
  obtain ⟨none, named, enough⟩ := admissible_iff.mp walked
  have declared : ∀ i ∈ b.code.toList, i.inScope b.signature.arity b.locals.size = true := by
    intro i mem
    rw [code] at mem
    rcases List.mem_append.mp mem with inFront | last
    · exact named i inFront
    · rw [List.mem_singleton.mp last]
      rfl
  constructor
  case ends => exact ⟨front, code, none⟩
  case arguments => exact fun i mem => (Instr.inScope_iff.mp (declared i mem)).1
  case locals => exact fun i mem => (Instr.inScope_iff.mp (declared i mem)).2
  case enough =>
    intro before i after split
    rcases split_of_concat (code.symm.trans split) with ⟨rfl, rfl⟩ | ⟨rest, inFront⟩
    · have reached := depthAfter_eq_height walked
      simp only [Instr.pops]
      omega
    · have enough := enough before i rest inFront
      omega
  case balanced =>
    intro before after split
    rcases split_of_concat (code.symm.trans split) with ⟨rfl, _⟩ | ⟨rest, rfl⟩
    · exact balanced
    · exact absurd (List.mem_append_right before List.mem_cons_self) none

theorem WellFormed.exists_admissible (formed : b.WellFormed) :
    ∃ front, b.code.toList = front ++ [.ret] ∧
      Admissible b.signature.arity b.locals.size front 0 ∧ height front = b.promised := by
  obtain ⟨front, code, none⟩ := formed.ends
  refine ⟨front, code, ?_, formed.balanced front [] code⟩
  refine admissible_iff.mpr ⟨none, fun i mem => ?_, fun before i after split => ?_⟩
  · have inCode : i ∈ b.code.toList := code ▸ List.mem_append_left [.ret] mem
    exact Instr.inScope_iff.mpr ⟨formed.arguments i inCode, formed.locals i inCode⟩
  · have enough := formed.enough before i (after ++ [.ret]) (by rw [code, split]; simp)
    omega

theorem peakAfter_eq_or_split (code : List Instr) (depth peak : Nat) :
    peakAfter code depth peak = peak ∨
      ∃ before i after, code = before ++ i :: after ∧
        depthAfter (before ++ [i]) depth = peakAfter code depth peak := by
  induction code generalizing depth peak with
  | nil => exact .inl rfl
  | cons i rest ih =>
    rcases ih (i.depthAfter depth) (max peak (i.depthAfter depth)) with
      top | ⟨before, j, after, rfl, later⟩
    · rcases Nat.le_total (i.depthAfter depth) peak with lower | higher
      · exact .inl (top.trans (Nat.max_eq_left lower))
      · exact .inr ⟨[], i, rest, rfl, (top.trans (Nat.max_eq_right higher)).symm⟩
    · exact .inr ⟨i :: before, j, after, rfl, later⟩

/-- The peak of the walk is the greatest height. -/
theorem IsPeak.of_admissible {front : List Instr} (code : b.code.toList = front ++ [.ret])
    (walked : Admissible b.signature.arity b.locals.size front 0) :
    b.IsPeak (peakAfter front 0 0) := by
  have ended : height (front ++ [.ret]) = depthAfter front 0 := by
    rw [depthAfter_eq_height walked]
    simp
  have below := depthAfter_le_peakAfter front (Nat.le_refl 0)
  constructor
  case bounds =>
    intro before i after split
    rcases split_of_concat (code.symm.trans split) with ⟨rfl, rfl⟩ | ⟨rest, rfl⟩
    · omega
    · have parts : before ++ i :: rest = before ++ [i] ++ rest := by simp
      rw [parts] at walked ⊢
      have reached := depthAfter_eq_height (admissible_append.mp walked).1
      have lower := depthAfter_le_peakAfter (before ++ [i]) (Nat.le_refl 0)
      have upper := le_peakAfter rest (depthAfter (before ++ [i]) 0)
        (peakAfter (before ++ [i]) 0 0)
      rw [peakAfter_append]
      omega
  case attained =>
    rcases peakAfter_eq_or_split front 0 0 with zero | ⟨before, i, after, split, top⟩
    · refine ⟨front, .ret, [], code, ?_⟩
      omega
    · refine ⟨before, i, after ++ [.ret], by rw [code, split]; simp, ?_⟩
      have parts : front = before ++ [i] ++ after := by rw [split]; simp
      rw [parts] at walked
      have reached := depthAfter_eq_height (admissible_append.mp walked).1
      omega

theorem IsPeak.unique {n n' : Nat} (peak : b.IsPeak n) (peak' : b.IsPeak n') : n = n' := by
  obtain ⟨before, i, after, split, top⟩ := peak.attained
  obtain ⟨before', i', after', split', top'⟩ := peak'.attained
  have lower := peak'.bounds before i after split
  have upper := peak.bounds before' i' after' split'
  omega

theorem check_of_wellFormed (formed : b.WellFormed) : ∃ n, b.check = .ok n ∧ b.IsPeak n := by
  obtain ⟨front, code, walked, balanced⟩ := formed.exists_admissible
  have reached : depthAfter front 0 = b.promised := by
    have same := depthAfter_eq_height walked
    omega
  exact ⟨_, check_eq_ok rfl code ⟨walked, reached, rfl⟩, .of_admissible code walked⟩

/-- Behind admissible code the check arrives at its offset and height. -/
theorem check_eq_checkFrom {front rest : List Instr} (code : b.code.toList = front ++ rest)
    (walked : Admissible b.signature.arity b.locals.size front 0) :
    b.check = checkFrom b.signature.arity b.locals.size b.promised rest (codeSize front)
      (depthAfter front 0) (peakAfter front 0 0) := by
  have parts := checkFrom_append b.promised rest 0 0 walked
  rw [Nat.zero_add, ← code] at parts
  exact parts

/-- The first defect is the one that the check reports. -/
theorem check_of_defect {before : List Instr} {i : Instr} {after : List Instr} {e : BodyError}
    (code : b.code.toList = before ++ i :: after) (faultless : b.Faultless before)
    (defect : b.Defect before i e) : b.check = .error e := by
  by_cases behind : .ret ∈ before
  · obtain ⟨front, rfl, walked, balanced⟩ := faultless.exists_concat behind
    obtain rfl : e = .unreachableCode (codeSize (front ++ [.ret])) := by
      cases defect with
      | unreachable _ => rfl
      | argument x ahead => exact absurd behind ahead
      | slot x ahead => exact absurd behind ahead
      | imbalance depth ahead => exact absurd behind ahead
      | underflow depth ahead => exact absurd behind ahead
    have reached := depthAfter_eq_height walked
    have same : depthAfter front 0 = b.promised := by omega
    rw [List.append_assoc, List.singleton_append] at code
    rw [check_eq_checkFrom code walked, codeSize_append]
    simp [checkFrom, operandError?, same, codeSize]
  · have walked := faultless.admissible behind
    have reached := depthAfter_eq_height walked
    rw [check_eq_checkFrom code walked, checkFrom]
    cases defect with
    | unreachable behind' => exact absurd behind' behind
    | argument x _ names missing =>
      have refused : operandError? b.signature.arity b.locals.size (codeSize before) i =
          some (.argumentOutOfRange (codeSize before) x.toNat b.signature.arity) := by
        cases i <;> cases names
        exact if_neg (Nat.not_lt.mpr missing)
      simp only [refused]
    | slot x _ names missing =>
      have refused : operandError? b.signature.arity b.locals.size (codeSize before) i =
          some (.localOutOfRange (codeSize before) x.toNat b.locals.size) := by
        cases i <;> cases names <;> exact if_neg (Nat.not_lt.mpr missing)
      simp only [refused]
    | imbalance depth _ last same unbalanced =>
      obtain rfl : depthAfter before 0 = depth := by omega
      simp [last, operandError?, unbalanced]
    | underflow depth _ named same few =>
      obtain rfl : depthAfter before 0 = depth := by omega
      have notRet : i ≠ .ret := by
        rintro rfl
        cases few
      simp [operandError?_of_inScope _ named, notRet, few]

theorem check_of_open (none : .ret ∉ b.code.toList) (faultless : b.Faultless b.code.toList) :
    b.check = .error .missingReturn := by
  have walked := faultless.admissible none
  exact check_eq_checkFrom (List.append_nil _).symm walked

end Body

theorem instrLines_append (r : Registry) (front rest : List Instr) (offset : Nat) (out : String) :
    instrLines r (front ++ rest) offset out =
      instrLines r rest (offset + codeSize front) (instrLines r front offset out) := by
  induction front generalizing offset out with
  | nil => rfl
  | cons i front ih =>
    rw [List.cons_append, instrLines, ih, instrLines, codeSize, Nat.add_assoc]

/-- Lines are added behind what has been written. -/
theorem exists_instrLines_eq_append (r : Registry) (code : List Instr) (offset : Nat)
    (out : String) : ∃ rest, instrLines r code offset out = out ++ rest := by
  induction code generalizing offset out with
  | nil => exact ⟨"", String.append_empty.symm⟩
  | cons i code ih =>
    obtain ⟨rest, lines⟩ := ih (offset + i.size)
      (out ++ offsetText offset ++ ": " ++ i.text r ++ "\n")
    refine ⟨offsetText offset ++ ": " ++ i.text r ++ "\n" ++ rest, ?_⟩
    rw [instrLines, lines]
    simp only [String.append_assoc]

namespace Body

variable {b : Body}

/-- Behind the lines of the instructions before it, the line of an instruction begins with the bytes
that these take. -/
theorem listing_of_split (r : Registry) {before : List Instr} {i : Instr} {after : List Instr}
    (code : b.code.toList = before ++ i :: after) :
    ∃ rest, b.listing r = { b with code := before.toArray }.listing r ++
      (offsetText (codeSize before) ++ ": " ++ i.text r ++ "\n") ++ rest := by
  have lines := instrLines_append r before (i :: after) 0
    (({ b with code := #[] } : Body).listing r)
  obtain ⟨rest, ended⟩ := exists_instrLines_eq_append r after (0 + codeSize before + i.size)
    (({ b with code := before.toArray } : Body).listing r ++ offsetText (0 + codeSize before) ++
      ": " ++ i.text r ++ "\n")
  refine ⟨rest, ?_⟩
  rw [Nat.zero_add] at ended
  rw [listing, code]
  refine lines.trans ?_
  rw [instrLines, Nat.zero_add]
  refine Eq.trans ended ?_
  simp only [String.append_assoc]

/-- What the check gives for well-formed bodies, for defective ones and for those without end. -/
theorem check_cases (b : Body) :
    (b.WellFormed ∧ ∃ n, b.check = .ok n ∧ b.IsPeak n) ∨
      (∃ before i after e, b.code.toList = before ++ i :: after ∧ b.Defect before i e ∧
        b.Faultless before ∧ b.check = .error e) ∨
      (.ret ∉ b.code.toList ∧ b.Faultless b.code.toList ∧ b.check = .error .missingReturn) := by
  rcases b.code_cases b.code.toList with
    walked | ⟨front, code, walked, balanced⟩ | ⟨before, i, after, e, code, defect, faultless⟩
  · have none := (admissible_iff.mp walked).1
    have faultless := Faultless.of_admissible walked
    exact .inr (.inr ⟨none, faultless, check_of_open none faultless⟩)
  · have formed := WellFormed.of_admissible code walked balanced
    exact .inl ⟨formed, check_of_wellFormed formed⟩
  · exact .inr (.inl ⟨before, i, after, e, code, defect, faultless,
      check_of_defect code faultless defect⟩)

/-- The check accepts exactly the well-formed bodies and gives the greatest height of their stack.
Of any other body it reports the first defective instruction, and that the end is open only if
there is none; the offset that it reports is the one in the line of the instruction. -/
theorem check_verdict (b : Body) :
    (∀ n, b.check = .ok n ↔ b.WellFormed ∧ b.IsPeak n) ∧
      (∀ e, b.check = .error e ↔
        (∃ before i after, b.code.toList = before ++ i :: after ∧ b.Defect before i e ∧
          b.Faultless before) ∨
        e = .missingReturn ∧ .ret ∉ b.code.toList ∧ b.Faultless b.code.toList) ∧
      ∀ r before i after, b.code.toList = before ++ i :: after →
        ∃ rest, b.listing r = { b with code := before.toArray }.listing r ++
          (offsetText (codeSize before) ++ ": " ++ i.text r ++ "\n") ++ rest := by
  refine ⟨fun n => ⟨fun passed => ?_, ?_⟩, fun e => ⟨fun failed => ?_, ?_⟩,
    fun r _ _ _ => listing_of_split r⟩
  · rcases b.check_cases with ⟨formed, n', passed', peak⟩ | ⟨_, _, _, _, _, _, _, failed⟩ |
      ⟨_, _, failed⟩
    · rw [passed] at passed'
      cases passed'
      exact ⟨formed, peak⟩
    · rw [passed] at failed
      cases failed
    · rw [passed] at failed
      cases failed
  · rintro ⟨formed, peak⟩
    obtain ⟨n', passed, peak'⟩ := check_of_wellFormed formed
    rw [passed, peak.unique peak']
  · rcases b.check_cases with ⟨_, n, passed, _⟩ |
      ⟨before, i, after, e', code, defect, faultless, failed'⟩ | ⟨none, faultless, failed'⟩
    · rw [failed] at passed
      cases passed
    · rw [failed] at failed'
      cases failed'
      exact .inl ⟨before, i, after, code, defect, faultless⟩
    · rw [failed] at failed'
      cases failed'
      exact .inr ⟨rfl, none, faultless⟩
  · rintro (⟨before, i, after, code, defect, faultless⟩ | ⟨rfl, none, faultless⟩)
    · exact check_of_defect code faultless defect
    · exact check_of_open none faultless

/-- Stores what is not on the stack into a local that is not declared. -/
def stray : Body where
  name := "stray"
  signature := ⟨[], false⟩
  code := #[.ldnull, .pop, .stloc (.short 7), .ret]

/-- Of a stray store it is the local that is reported, with the offset of its line. Making an
interval is well-formed, and three entries are the most that it needs. -/
theorem check_verdict_stray :
    stray.code.toList = [.ldnull, .pop] ++ .stloc (.short 7) :: [.ret] ∧
      stray.check = .error (.localOutOfRange 2 7 0) ∧
      (∃ rest, stray.listing {} = ".method stray () -> void\nIL_0000: ldnull\nIL_0001: pop\n" ++
        "IL_0002: stloc.s 7\n" ++ rest) ∧
      intervalBody.WellFormed ∧ intervalBody.IsPeak 3 := by
  have code : stray.code.toList = [.ldnull, .pop] ++ .stloc (.short 7) :: [.ret] := rfl
  obtain ⟨_, errors, lines⟩ := check_verdict stray
  obtain ⟨accepts, _⟩ := check_verdict intervalBody
  have walked : Admissible stray.signature.arity stray.locals.size [.ldnull, .pop] 0 := by
    simp [Admissible, Instr.inScope, Instr.depthAfter, Instr.pops, Instr.pushes]
  have defect : stray.Defect [.ldnull, .pop] (.stloc (.short 7)) (.localOutOfRange 2 7 0) :=
    .slot (.short 7) (by decide) rfl (by decide)
  refine ⟨code, ?_, ?_, (accepts 3).mp check_intervalBody⟩
  · exact (errors _).mpr (.inl ⟨_, _, _, code, defect, .of_admissible walked⟩)
  · exact lines {} _ _ _ code

end Body

end MemberAccess.Code
