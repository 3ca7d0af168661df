import MemberAccess.Proofs.Layouts

/-!
Base chains. However definitions are interleaved, the ancestors of a type are its base type and the
ancestors of that. So all of them are known, none of them comes twice, and the types on the way up
to an ancestor are those that derive from it. What is assignable upwards step by step is assignable,
and not the other way.
-/

namespace MemberAccess.Registry

theorem base?_of_lineage {r : Registry} {t base : Ty} (lineage : r.lineage t = r.chain base) :
    r.base? t = some base := by
  rw [base?, lineage, chain, List.head?_cons]

namespace Sound

variable {r : Registry} (sound : r.Sound)

include sound

/-- A type without a base has no ancestors; any other has the chain of its base. -/
theorem lineage_cases (t : Ty) :
    r.lineage t = [] ∨ ∃ base, r.knows base = true ∧ r.lineage t = r.chain base := by
  cases declared : r.decl? t with
  | none => exact .inl (by simp [lineage, declared])
  | some d =>
    have same : r.lineage t = d.lineage := by simp [lineage, declared]
    obtain ⟨id, _, found⟩ := Option.bind_eq_some_iff.mp declared
    rw [same]
    cases derived : d.lineage with
    | nil => exact .inl rfl
    | cons base rest =>
      have chain := (sound id d found).chain base (by rw [derived]; rfl)
      rw [derived] at chain
      exact .inr ⟨base, chain⟩

/-- Induction along base chains. -/
theorem chain_induction {motive : (t : Ty) → r.knows t = true → Prop}
    (root : ∀ t known, r.lineage t = [] → motive t known)
    (derived : ∀ t known base knownBase, r.lineage t = r.chain base → motive base knownBase →
      motive t known)
    (t : Ty) (known : r.knows t = true) : motive t known := by
  rcases sound.lineage_cases t with top | ⟨base, knownBase, lineage⟩
  · exact root t known top
  · exact derived t known base knownBase lineage (chain_induction root derived base knownBase)
termination_by (r.lineage t).length
decreasing_by
  rw [lineage]
  exact Nat.lt_succ_self _

section

variable {t : Ty} (known : r.knows t = true)

include known

theorem knows_of_mem_chain {s : Ty} (mem : s ∈ r.chain t) : r.knows s = true := by
  induction t, known using sound.chain_induction with
  | root t known top =>
    rw [chain, top] at mem
    exact List.mem_singleton.mp mem ▸ known
  | derived t known base knownBase lineage ih =>
    rw [chain, lineage] at mem
    rcases List.mem_cons.mp mem with rfl | above
    · exact known
    · exact ih above

/-- What lies above an ancestor is the end of the chain. -/
theorem chain_suffix {s : Ty} (mem : s ∈ r.chain t) : r.chain s <:+ r.chain t := by
  induction t, known using sound.chain_induction with
  | root t known top =>
    have whole : r.chain t = [t] := by rw [chain, top]
    rw [whole] at mem
    obtain rfl := List.mem_singleton.mp mem
    exact List.suffix_rfl
  | derived t known base knownBase lineage ih =>
    rcases List.mem_cons.mp mem with rfl | above
    · exact List.suffix_rfl
    · rw [lineage] at above
      have below : r.chain t = t :: r.chain base := by rw [chain, lineage]
      rw [below]
      exact (ih above).trans (List.suffix_cons _ _)

end

section

variable {t u s : Ty}

/-- Ancestors of ancestors are ancestors. -/
theorem lineage_trans (mem : u ∈ r.lineage t) (above : s ∈ r.lineage u) : s ∈ r.lineage t := by
  rcases sound.lineage_cases t with top | ⟨base, known, lineage⟩
  · rw [top] at mem
    cases mem
  · rw [lineage] at mem ⊢
    exact (sound.chain_suffix known mem).subset (List.mem_cons_of_mem u above)

/-- The chain gets shorter on the way up. -/
theorem length_chain_lt (above : u ∈ r.lineage t) : (r.chain u).length < (r.chain t).length := by
  rcases sound.lineage_cases t with top | ⟨base, known, lineage⟩
  · rw [top] at above
    cases above
  · rw [lineage] at above
    have shorter := (sound.chain_suffix known above).length_le
    rw [← lineage] at shorter
    exact Nat.lt_succ_of_le shorter

/-- No type of the chain derives from the type that the chain begins with. -/
theorem not_mem_lineage (mem : s ∈ r.chain t) : t ∉ r.lineage s := by
  intro above
  rcases List.mem_cons.mp mem with rfl | mem
  · exact Nat.lt_irrefl _ (sound.length_chain_lt above)
  · exact Nat.lt_irrefl _ (sound.length_chain_lt (sound.lineage_trans mem above))

end

section

variable {a b c : Ty}

theorem assignable_trans (upper : r.assignable a b = true) (lower : r.assignable b c = true) :
    r.assignable a c = true := by
  rw [assignable_iff] at upper
  rcases upper with rfl | ⟨rfl, typed⟩ | ancestor
  · exact lower
  · refine (assignable_iff r .object c).mpr (.inr (.inl ⟨rfl, ?_⟩))
    rintro rfl
    rcases (assignable_iff r b .void).mp lower with rfl | ⟨_, typed⟩ | above
    · exact typed rfl
    · exact typed rfl
    · cases above
  · rcases (assignable_iff r b c).mp lower with rfl | ⟨rfl, _⟩ | above
    · exact (assignable_iff r a b).mpr (.inr (.inr ancestor))
    · cases ancestor
    · exact (assignable_iff r a c).mpr (.inr (.inr (sound.lineage_trans above ancestor)))

theorem assignable_antisymm (upper : r.assignable a b = true) (lower : r.assignable b a = true) :
    a = b := by
  rcases (assignable_iff r a b).mp upper with same | ⟨rfl, _⟩ | ancestor
  · exact same
  · rcases (assignable_iff r b .object).mp lower with same | ⟨same, _⟩ | above
    · exact same.symm
    · exact same.symm
    · cases above
  · rcases (assignable_iff r b a).mp lower with same | ⟨rfl, _⟩ | above
    · exact same.symm
    · cases ancestor
    · exact absurd above (sound.not_mem_lineage (List.mem_cons_of_mem b ancestor))

end

/-- On the way up to an ancestor there are the types of the chain that derive from it. -/
theorem mem_takeWhile_chain {t d s : Ty} (known : r.knows t = true) (ancestor : d ∈ r.chain t) :
    s ∈ (r.chain t).takeWhile (· != d) ↔ s ∈ r.chain t ∧ d ∈ r.lineage s := by
  induction t, known using sound.chain_induction with
  | root t known top =>
    have whole : r.chain t = [t] := by rw [chain, top]
    rw [whole, List.mem_singleton] at ancestor
    subst ancestor
    have none : s ∈ r.chain d → d ∉ r.lineage s := sound.not_mem_lineage
    simpa [whole] using none
  | derived t known base knownBase lineage ih =>
    have whole : r.chain t = t :: r.chain base := by rw [chain, lineage]
    by_cases same : t = d
    · subst same
      have none : s ∈ r.chain t → t ∉ r.lineage s := sound.not_mem_lineage
      simpa [whole] using none
    · rw [whole] at ancestor ⊢
      have above : d ∈ r.chain base := (List.mem_cons.mp ancestor).resolve_left (Ne.symm same)
      have passes : (t != d) = true := bne_iff_ne.mpr same
      simp only [List.takeWhile_cons, passes, if_true, List.mem_cons, ih above]
      constructor
      · rintro (rfl | ⟨mem, below⟩)
        · exact ⟨.inl rfl, lineage ▸ above⟩
        · exact ⟨.inr mem, below⟩
      · rintro ⟨rfl | mem, below⟩
        · exact .inl rfl
        · exact .inr ⟨mem, below⟩

end Sound

end MemberAccess.Registry
