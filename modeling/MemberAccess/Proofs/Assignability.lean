import Mathlib.Logic.Relation
import MemberAccess.Proofs.ConversionCode
import MemberAccess.Proofs.Lineages

/-!
Assignability as an order. A type takes itself and what derives from it, over any number of bases,
and `Object` takes everything but `Void`. However definitions are interleaved, this is a partial
order, and what passes a cast to one type passes a cast to all types above it.
-/

namespace MemberAccess

theorem Ty.isReferenceType_of_isStruct {t : Ty} (isStruct : t.isStruct = true) :
    t.isReferenceType = false := by
  cases t <;> first | rfl | cases isStruct

theorem Value.cast_eq_ok_iff {r : Registry} {v w : Value} {t : Ty} :
    v.cast r t = .ok w ↔ w = v ∧ v.passes r t = true := by
  cases passes : v.passes r t with
  | false => simp [cast_of_not_passes passes]
  | true => simp [cast_of_passes passes, eq_comm]

namespace Registry

variable {r : Registry} {a b t s : Ty}

/-- Whether `s` is the base type of `t`, or the base type of that, and so on. -/
def Derives (r : Registry) : Ty → Ty → Prop :=
  Relation.TransGen fun t base => r.base? t = some base

theorem Sound.climbs_of_mem_chain (sound : r.Sound) (known : r.knows t = true)
    (mem : s ∈ r.chain t) : Relation.ReflTransGen (fun t base => r.base? t = some base) t s := by
  induction t, known using sound.chain_induction with
  | root t known top =>
    rw [chain, top] at mem
    obtain rfl := List.mem_singleton.mp mem
    exact .refl
  | derived t known base knownBase lineage ih =>
    rw [chain, lineage] at mem
    rcases List.mem_cons.mp mem with rfl | above
    · exact .refl
    · exact .head (base?_of_lineage lineage) (ih above)

theorem Sound.mem_lineage_iff (sound : r.Sound) : s ∈ r.lineage t ↔ r.Derives t s := by
  constructor
  · intro mem
    rcases sound.lineage_cases t with top | ⟨base, known, lineage⟩
    · rw [top] at mem
      cases mem
    · rw [lineage] at mem
      exact .head' (base?_of_lineage lineage) (sound.climbs_of_mem_chain known mem)
  · intro derives
    induction derives with
    | single derived => exact List.mem_of_mem_head? derived
    | tail _ derived ih => exact sound.lineage_trans ih (List.mem_of_mem_head? derived)

theorem assignable_self (r : Registry) (t : Ty) : r.assignable t t = true :=
  (assignable_iff r t t).mpr (.inl rfl)

/-- What passes a cast to `b` passes one to `a` as well and comes out unchanged, and the cast to `a`
adds nothing to the one to `b`, whichever comes first. -/
structure Widens (r : Registry) (a b : Ty) : Prop where
  cast : ∀ v w : Value, v.cast r b = .ok w → w = v ∧ v.cast r a = .ok w
  up : ∀ v : Value, (v.cast r b >>= (·.cast r a)) = v.cast r b
  down : ∀ v w : Value, (v.cast r a >>= (·.cast r b)) = .ok w ↔ v.cast r b = .ok w
  fits : a.isReferenceType = true → b.isReferenceType = true →
    ∀ s : Slot, s.fits r b = true → s.fits r a = true

theorem Sound.passes (sound : r.Sound) (above : r.assignable a b = true) {v : Value}
    (passes : v.passes r b = true) : v.passes r a = true := by
  rw [Value.passes, Option.all_eq_true] at passes ⊢
  exact fun u runtime => sound.assignable_trans above (passes u runtime)

theorem Sound.cast_of_cast (sound : r.Sound) (above : r.assignable a b = true) {v w : Value}
    (cast : v.cast r b = .ok w) : w = v ∧ v.cast r a = .ok w := by
  obtain ⟨rfl, passes⟩ := Value.cast_eq_ok_iff.mp cast
  exact ⟨rfl, Value.cast_of_passes (sound.passes above passes)⟩

theorem Sound.widens (sound : r.Sound) (above : r.assignable a b = true) : r.Widens a b := by
  refine ⟨fun v w => sound.cast_of_cast above, fun v => ?up, fun v w => ?down,
    fun top bottom s fits => ?fits⟩
  case up =>
    cases lower : v.cast r b with
    | error e => rfl
    | ok w =>
      obtain ⟨rfl, upper⟩ := sound.cast_of_cast above lower
      exact upper
  case down =>
    cases upper : v.cast r a with
    | error e =>
      refine iff_of_false nofun fun lower => ?_
      cases upper.symm.trans (sound.cast_of_cast above lower).2
    | ok u =>
      obtain ⟨rfl, _⟩ := Value.cast_eq_ok_iff.mp upper
      rfl
  case fits =>
    cases s with
    | ref v =>
      obtain ⟨_, passes⟩ := Bool.and_eq_true_iff.mp fits
      exact Bool.and_eq_true_iff.mpr ⟨top, sound.passes above passes⟩
    | struct u slots =>
      obtain ⟨isStruct, _⟩ := Bool.and_eq_true_iff.mp fits
      rw [Ty.isReferenceType_of_isStruct isStruct] at bottom
      cases bottom
    | _ =>
      rw [of_decide_eq_true fits] at bottom
      cases bottom

/-- Among all types there are, finished or not, being assignable is a partial order: a type takes
itself and what derives from it, and `Object` takes everything but `Void`. A value that passes a cast
passes the casts to all types above. -/
theorem assignable_order (reached : Reaches {} r) :
    (∀ a b, r.assignable a b = true ↔ a = b ∨ a = .object ∧ b ≠ .void ∨ r.Derives b a) ∧
    (∀ t, r.assignable t t = true) ∧
    (∀ a b c, r.assignable a b = true → r.assignable b c = true → r.assignable a c = true) ∧
    (∀ a b, r.assignable a b = true → r.assignable b a = true → a = b) ∧
    (∀ t, r.assignable .object t = true ↔ t ≠ .void) ∧
    ∀ a b, r.assignable a b = true → r.Widens a b := by
  have sound := sound_of_reaches reached
  have derives (a b : Ty) :
      r.assignable a b = true ↔ a = b ∨ a = .object ∧ b ≠ .void ∨ r.Derives b a := by
    rw [assignable_iff, sound.mem_lineage_iff]
  refine ⟨derives, assignable_self r, fun a b c => sound.assignable_trans,
    fun a b => sound.assignable_antisymm, fun t => ?top, fun a b => sound.widens⟩
  rw [assignable_iff]
  constructor
  · rintro (rfl | ⟨_, typed⟩ | above)
    · nofun
    · exact typed
    · rintro rfl
      cases above
  · exact fun typed => .inr (.inl ⟨rfl, typed⟩)

end Registry

/-! Cats are mammals, and mammals are animals. What is under an illegal base is there as well, though
it is never finished. -/

namespace Taxonomy

def animal : Ty := .classType 0
def mammal : Ty := .classType 1
def cat : Ty := .classType 2
def ghost : Ty := .classType 3

def edits : List Edit :=
  [.startClass "Animal", .finish animal, .startDerived "Mammal" animal, .startDerived "Cat" mammal,
    .finish mammal, .finish cat, .startDerived "Ghost" .void, .finish ghost]

def registry : Registry :=
  { types := #[
      ⟨"Animal", [.object], .finished (Draft.members {})⟩,
      ⟨"Mammal", [animal, .object], .finished (Draft.members {})⟩,
      ⟨"Cat", [mammal, animal, .object], .draft { baseReady := false }⟩,
      ⟨"Ghost", [.void], .draft {}⟩] }

theorem replay_edits : Registry.replay {} edits = some registry := by rfl

end Taxonomy

/-- A cat, finished or not, passes for an animal, and a ghost for a void. -/
theorem Registry.assignable_order_taxonomy :
    Reaches {} Taxonomy.registry ∧ Taxonomy.registry.isFinished Taxonomy.cat = false ∧
      Taxonomy.registry.assignable Taxonomy.animal Taxonomy.cat = true ∧
      Taxonomy.registry.assignable Taxonomy.mammal Taxonomy.animal = false ∧
      Taxonomy.registry.assignable .void Taxonomy.ghost = true ∧
      Taxonomy.registry.assignable .object Taxonomy.ghost = true ∧
      Taxonomy.registry.assignable .object .void = false ∧
      Taxonomy.registry.Widens Taxonomy.animal Taxonomy.mammal ∧
      Value.cast Taxonomy.registry (.object ⟨Taxonomy.cat, 0⟩) Taxonomy.animal =
        .ok (.object ⟨Taxonomy.cat, 0⟩) ∧
      (Slot.ref (.object ⟨Taxonomy.cat, 0⟩)).fits Taxonomy.registry Taxonomy.animal = true := by
  have reached : Reaches {} Taxonomy.registry := reaches_of_replay Taxonomy.replay_edits
  obtain ⟨iff, _, trans, antisymm, top, widens⟩ := assignable_order reached
  have lower : Taxonomy.registry.assignable Taxonomy.mammal Taxonomy.cat = true :=
    (iff _ _).mpr (.inr (.inr (.single rfl)))
  have upper : Taxonomy.registry.assignable Taxonomy.animal Taxonomy.mammal = true :=
    (iff _ _).mpr (.inr (.inr (.single rfl)))
  have void : Taxonomy.registry.assignable .void Taxonomy.ghost = true :=
    (iff _ _).mpr (.inr (.inr (.single rfl)))
  have widened := widens _ _ upper
  refine ⟨reached, rfl, trans _ _ _ upper lower, ?strict, void, (top _).mpr nofun, ?void,
    widened, (widened.cast _ _ rfl).2, widened.fits rfl rfl _ rfl⟩
  case strict =>
    refine Bool.eq_false_iff.mpr fun back => ?_
    cases antisymm _ _ upper back
  case void => exact Bool.eq_false_iff.mpr fun above => (top .void).mp above rfl

end MemberAccess
