import Mathlib.Data.List.Basic
import Std.Data.TreeMap.Lemmas
import MemberAccess.Proofs.Histories
import MemberAccess.Proofs.Lineages

/-!
Lookups by name. Names are looked up in an index, which holds the first position of each name or all
of them; what is found at these positions is what a search through the members one by one would
find. On a base chain the nearest type that has a member with the name decides, or, if parameter
types are asked for as well, the nearest that has one with both.
-/

namespace MemberAccess

open Std (TreeMap)

section

variable (name : String)

/-- What an index has already comes first, and positions are counted from `start`. -/
theorem getElem?_foldl_insertIfNew (names : List String) (start : Nat)
    (index : TreeMap String Nat) :
    ((names.zipIdx start).foldl (fun index (name, i) => index.insertIfNew name i) index)[name]? =
      index[name]?.or ((names.findIdx? (· == name)).map (· + start)) := by
  induction names generalizing start index with
  | nil => simp
  | cons first rest ih =>
    rw [List.zipIdx_cons, List.foldl_cons, ih, TreeMap.getElem?_insertIfNew, List.findIdx?_cons]
    by_cases same : first = name
    · subst same
      cases found : index[first]? <;> simp [TreeMap.mem_iff_isSome_getElem?, found]
    · simp [same, Nat.add_comm, Nat.add_left_comm, Function.comp_def]

theorem getElem?_firstPositions (names : List String) :
    (firstPositions names)[name]? = names.findIdx? (· == name) := by
  rw [firstPositions, getElem?_foldl_insertIfNew]
  simp

theorem getElem?_foldl_alter (names : List String) (start : Nat)
    (index : TreeMap String (List Nat)) :
    (((names.zipIdx start).foldl
        (fun index (name, i) => index.alter name fun ps => some (ps.getD [] ++ [i]))
        index)[name]?).getD [] =
      index[name]?.getD [] ++ ((names.zipIdx start).filter (·.1 == name)).map Prod.snd := by
  induction names generalizing start index with
  | nil => simp
  | cons first rest ih =>
    rw [List.zipIdx_cons, List.foldl_cons, ih, TreeMap.getElem?_alter]
    by_cases same : first = name <;> simp [same]

theorem getElem?_allPositions (names : List String) :
    (allPositions names)[name]?.getD [] =
      (names.zipIdx.filter (·.1 == name)).map Prod.snd := by
  rw [allPositions, getElem?_foldl_alter]
  simp

end

/-- What a list has at the positions of a name is what a filter by name keeps. -/
theorem filterMap_getElem?_positions {α : Type} (l : List α) (text : α → String) (name : String) :
    (((l.map text).zipIdx.filter (·.1 == name)).map Prod.snd).filterMap (l[·]?) =
      l.filter (text · == name) := by
  rw [List.zipIdx_map, List.filter_map, List.map_map, List.filterMap_map]
  have held : ∀ c ∈ l.zipIdx.filter (text ·.1 == name), l[c.2]? = some c.1 := fun c mem =>
    List.mem_zipIdx_iff_getElem?.mp (List.mem_filter.mp mem).1
  calc (l.zipIdx.filter (text ·.1 == name)).filterMap (l[·.2]?)
      = (l.zipIdx.filter (text ·.1 == name)).filterMap fun c => some c.1 :=
        List.filterMap_congr held
    _ = (l.zipIdx.map Prod.fst).filter (text · == name) := by
        rw [List.filterMap_eq_map', List.filter_map]
        rfl
    _ = l.filter (text · == name) := by rw [List.zipIdx_map_fst]

namespace Members

variable (m : Members) (name : String)

theorem field?_eq : m.field? name = m.fields.find? (·.name = name) := by
  rw [field?, m.fieldIndex_eq, getElem?_firstPositions, List.findIdx?_map,
    List.find?_eq_bind_findIdx?_getElem?]
  rfl

theorem property?_eq : m.property? name = m.properties.find? (·.name = name) := by
  rw [property?, m.propertyIndex_eq, getElem?_firstPositions, List.findIdx?_map,
    List.find?_eq_bind_findIdx?_getElem?]
  rfl

theorem overloads_eq : m.overloads name = m.methods.filter (·.name == name) := by
  rw [overloads, m.methodIndex_eq, getElem?_allPositions, filterMap_getElem?_positions]

theorem method?_eq : m.method? name = m.methods.find? (·.name = name) := by
  rw [method?, overloads_eq, List.head?_filter]
  rfl

theorem methodWith?_eq (types : List Ty) :
    m.methodWith? name types =
      m.methods.find? fun k => k.name = name ∧ k.params.map Param.type = types := by
  rw [methodWith?, overloads_eq, List.find?_filter]
  simp [Param.matchTypes]

/-- Whether every position in an index is that of a member with the name. -/
structure Indexed : Prop where
  fields : ∀ (name : String) i, m.fieldIndex[name]? = some i →
    ∃ f : Field, m.fields[i]? = some f ∧ f.name = name
  methods : ∀ (name : String) is, m.methodIndex[name]? = some is →
    ∀ i ∈ is, ∃ k : Method, m.methods[i]? = some k ∧ k.name = name
  properties : ∀ (name : String) i, m.propertyIndex[name]? = some i →
    ∃ p : Property, m.properties[i]? = some p ∧ p.name = name

theorem getElem?_of_findIdx? {α : Type} {l : List α} {text : α → String} {i : Nat}
    (found : (l.map text).findIdx? (· == name) = some i) : ∃ a, l[i]? = some a ∧ text a = name := by
  rw [List.findIdx?_map, List.findIdx?_eq_some_iff_getElem] at found
  obtain ⟨bound, same, _⟩ := found
  exact ⟨l[i], List.getElem?_eq_getElem bound, by simpa using same⟩

theorem indexed : m.Indexed where
  fields name i found := by
    rw [m.fieldIndex_eq, getElem?_firstPositions] at found
    exact getElem?_of_findIdx? name found
  methods name is found i mem := by
    have positions := getElem?_allPositions name (m.methods.map Method.name)
    rw [← m.methodIndex_eq, found, Option.getD_some] at positions
    rw [positions] at mem
    obtain ⟨⟨text, _⟩, kept, rfl⟩ := List.mem_map.mp mem
    obtain ⟨position, same⟩ := List.mem_filter.mp kept
    have held := List.mem_zipIdx_iff_getElem?.mp position
    rw [List.getElem?_map] at held
    obtain ⟨k, found', rfl⟩ := Option.map_eq_some_iff.mp held
    exact ⟨k, found', by simpa using same⟩
  properties name i found := by
    rw [m.propertyIndex_eq, getElem?_firstPositions] at found
    exact getElem?_of_findIdx? name found

end Members

namespace Registry

variable {r : Registry} {α : Type} {listed : Ty → List α} {p : α → Prop}

/-- Whether `a` is the first member with `p` of the nearest type that has such a member, on the way
from base type to base type. -/
inductive Nearest (r : Registry) (listed : Ty → List α) (p : α → Prop) : Ty → α → Prop
  | own {t : Ty} {front back : List α} {a : α} (split : listed t = front ++ a :: back)
      (earlier : ∀ b ∈ front, ¬ p b) (hit : p a) : Nearest r listed p t a
  | inherited {t base : Ty} {a : α} (none : ∀ b ∈ listed t, ¬ p b)
      (derived : r.base? t = some base) (above : Nearest r listed p base a) :
      Nearest r listed p t a

/-- A search among the members of one type decides, or the base type does. -/
theorem nearest_iff [DecidablePred p] {t : Ty} {a : α} :
    r.Nearest listed p t a ↔
      (listed t).find? (p ·) = some a ∨ (listed t).find? (p ·) = none ∧
        ∃ base, r.base? t = some base ∧ r.Nearest listed p base a := by
  constructor
  · rintro (⟨split, earlier, hit⟩ | ⟨none, derived, above⟩)
    · refine .inl (List.find?_eq_some_iff_append.mpr ⟨decide_eq_true hit, _, _, split, ?_⟩)
      simpa using earlier
    · exact .inr ⟨List.find?_eq_none.mpr (by simpa using none), _, derived, above⟩
  · rintro (found | ⟨none, base, derived, above⟩)
    · obtain ⟨hit, front, back, split, earlier⟩ := List.find?_eq_some_iff_append.mp found
      exact .own split (by simpa using earlier) (of_decide_eq_true hit)
    · exact .inherited (by simpa using List.find?_eq_none.mp none) derived above

/-- What a lookup on `t` finds: a nearest member with `p`, or none if no type of the base chain has
one. -/
structure Scans (r : Registry) (t : Ty) (listed : Ty → List α) (p : α → Prop)
    (found? : Option α) : Prop where
  some : ∀ a, found? = some a ↔ r.Nearest listed p t a
  none : found? = none ↔ ∀ s ∈ r.chain t, ∀ a ∈ listed s, ¬ p a

/-- A search along the chain that goes through the members of each type one by one. -/
theorem Sound.scans_search (sound : r.Sound) {find : Members → Option α}
    {table : Members → List α} [DecidablePred p] (finds : ∀ m, find m = (table m).find? (p ·))
    (empty : table {} = []) {t : Ty} (known : r.knows t = true) :
    r.Scans t (fun s => table (r.members s)) p (r.search t find) := by
  have own (s : Ty) : (r.members? s).bind find = (table (r.members s)).find? (p ·) := by
    rw [members]
    cases r.members? s with
    | none =>
      rw [Option.getD_none, empty]
      rfl
    | some m => exact finds m
  have step (s : Ty) (rest : List Ty) : (s :: rest).findSome? (fun u => (r.members? u).bind find) =
      ((table (r.members s)).find? (p ·)).or
        (rest.findSome? fun u => (r.members? u).bind find) := by
    rw [List.findSome?_cons, own]
    cases List.find? (fun a => decide (p a)) (table (r.members s)) <;> rfl
  refine ⟨fun a => ?found, ?nothing⟩
  case found =>
    induction t, known using sound.chain_induction with
    | root t known top =>
      have noBase : r.base? t = none := by rw [base?, top, List.head?_nil]
      rw [nearest_iff, search, chain, top, step, noBase]
      simp
    | derived t known base knownBase lineage ih =>
      rw [nearest_iff, search, chain, lineage, step, base?_of_lineage lineage,
        Option.or_eq_some_iff]
      simp [← ih, search]
  case nothing =>
    simp only [search, List.findSome?_eq_none_iff, own, List.find?_eq_none, decide_eq_true_eq]

/-- Every lookup by name finds what a search along the base chain finds that looks at the members of
one type after the other: those that have been declared on it, in their order, if it is finished, and
none if it is not. The positions in the indices are positions of members. -/
theorem lookups_scan_chain {edits : List Edit} (replayed : replay {} edits = some r) {t : Ty}
    (known : r.knows t = true) :
    (∀ name, r.Scans t r.fields (·.name = name) (r.field? t name)) ∧
    (∀ name, r.Scans t r.methods (·.name = name) (r.method? t name)) ∧
    (∀ name types, r.Scans t r.methods
      (fun m => m.name = name ∧ m.params.map Param.type = types) (r.methodWith? t name types)) ∧
    (∀ name, r.Scans t r.properties (·.name = name) (r.property? t name)) ∧
    (∀ s ∈ r.chain t, r.isFinished s = true → r.Lists s (declared s {} edits)) ∧
    (∀ s, r.isFinished s = false → r.Lists s []) ∧
    ∀ s m, r.members? s = some m → m.Indexed := by
  have sound := sound_of_reaches (reaches_of_replay replayed)
  refine ⟨fun name => ?fields, fun name => ?methods, fun name types => ?overloads,
    fun name => ?properties, fun s mem isFinished => ?finished, fun s => lists_nil,
    fun s m _ => m.indexed⟩
  case fields => exact sound.scans_search (Members.field?_eq · name) rfl known
  case methods => exact sound.scans_search (Members.method?_eq · name) rfl known
  case overloads => exact sound.scans_search (Members.methodWith?_eq · name types) rfl known
  case properties => exact sound.scans_search (Members.property?_eq · name) rfl known
  case finished =>
    exact lists_declared replayed ⟨sound.knows_of_mem_chain known mem, isFinished⟩

end Registry

/-! A catalog has two fields of one name and two methods of one name; an index below it has another
method of that name; and a draft below that has declared one of each, but is not finished. -/

namespace Catalog

def catalog : Ty := .classType 0
def index : Ty := .classType 1
def draft : Ty := .classType 2

def size : Field := ⟨catalog, 0, "Size", .int32, true, false, .slot 0⟩
def longSize : Field := ⟨catalog, 1, "Size", .int64, true, false, .slot 1⟩
def ownSize : Field := ⟨draft, 0, "Size", .object, true, false, .slot 0⟩

def findNumber : Method := ⟨catalog, 0, "Find", [⟨"number", .int32, false⟩], .object, {}⟩
def findTitle : Method := ⟨catalog, 1, "Find", [⟨"title", .string, false⟩], .object, {}⟩
def findLent : Method := ⟨index, 0, "Find", [⟨"lent", .bool, false⟩], .object, {}⟩
def findOwn : Method := ⟨draft, 0, "Find", [⟨"title", .string, false⟩], .object, {}⟩

def edits : List Edit :=
  [.startClass "Catalog", .addField catalog "Size" .int32 { isPublic := true },
    .addField catalog "Size" .int64 { isPublic := true },
    .addMethod catalog "Find" findNumber.params .object {},
    .addMethod catalog "Find" findTitle.params .object {}, .finish catalog,
    .startDerived "Index" catalog, .addMethod index "Find" findLent.params .object {},
    .startDerived "Draft" index, .finish index,
    .addField draft "Size" .object { isPublic := true },
    .addMethod draft "Find" findOwn.params .object {}, .finish draft]

def registry : Registry :=
  { types := #[
      ⟨"Catalog", [.object], .finished (Draft.members
        { fields := [size, longSize], methods := [findNumber, findTitle],
          layout := [.int32, .int64] })⟩,
      ⟨"Index", [catalog, .object], .finished (Draft.members
        { methods := [findLent], layout := [.int32, .int64] })⟩,
      ⟨"Draft", [index, catalog, .object], .draft
        { fields := [ownSize], methods := [findOwn], layout := [.object], baseReady := false }⟩] }

theorem replay_edits : Registry.replay {} edits = some registry := by rfl

end Catalog

/-- What is found for the draft is what the types above it have declared. -/
theorem Registry.lookups_scan_chain_catalog :
    replay {} Catalog.edits = some Catalog.registry ∧
      Catalog.registry.knows Catalog.draft = true ∧
      Catalog.registry.field? Catalog.draft "Size" = some Catalog.size ∧
      Catalog.registry.method? Catalog.draft "Find" = some Catalog.findLent ∧
      Catalog.registry.methodWith? Catalog.draft "Find" [.string] = some Catalog.findTitle ∧
      Catalog.registry.property? Catalog.draft "Size" = none ∧
      Catalog.registry.Lists Catalog.index [.method Catalog.findLent] ∧
      Catalog.registry.Lists Catalog.draft [] := by
  have known : Catalog.registry.knows Catalog.draft = true := by decide
  obtain ⟨field, method, overload, property, finished, unfinished, _⟩ :=
    lookups_scan_chain Catalog.replay_edits known
  refine ⟨Catalog.replay_edits, known, ?first, ?nearest, ?exact, ?missing,
    finished Catalog.index (by decide) rfl, unfinished Catalog.draft rfl⟩
  case first =>
    have own : Catalog.registry.Nearest Catalog.registry.fields (·.name = "Size")
        Catalog.catalog Catalog.size :=
      .own (show _ = [] ++ _ from rfl) (by decide) rfl
    exact ((field "Size").some _).mpr
      (.inherited (by decide) rfl (.inherited (by decide) rfl own))
  case nearest =>
    exact ((method "Find").some _).mpr
      (.inherited (by decide) rfl (.own (show _ = [] ++ _ from rfl) (by decide) rfl))
  case exact =>
    have own : Catalog.registry.Nearest Catalog.registry.methods
        (fun m => m.name = "Find" ∧ m.params.map Param.type = [.string])
        Catalog.catalog Catalog.findTitle :=
      .own (show _ = [Catalog.findNumber] ++ _ from rfl) (by decide) ⟨rfl, rfl⟩
    exact ((overload "Find" [.string]).some _).mpr
      (.inherited (by decide) rfl (.inherited (by decide) rfl own))
  case missing => exact (property "Size").none.mpr (by decide)

end MemberAccess
