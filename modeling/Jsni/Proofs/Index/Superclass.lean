import Jsni.Proofs.Index.History
import Jsni.Proofs.Index.Levels

/-!
# Interfaces without a superclass

An interface, an annotation and the root class have no superclass of their own accord. A superclass
written for them counts all the same, also one that was written while an interface still was a
class. Where none counts, the walk is about interfaces alone.
-/

namespace Jsni

open Relation

/-! ## Walks without a superclass -/

namespace TypeIndex

variable {idx : TypeIndex} {h : Hierarchy} {t : JavaType}

theorem reaches_iff_of_superclass?_none (ht : h.superclass? t.name = none) (n : String) :
    h.Reaches t.name n ↔ ReflTransGen h.Implements t.name n := by
  constructor
  · rintro ⟨c, hsuper, hinterface⟩
    rcases hsuper.cases_head with rfl | ⟨b, ⟨u, hu, -⟩, -⟩
    · exact hinterface
    · cases ht.symm.trans hu
  · intro hinterface
    exact ⟨t.name, .refl, hinterface⟩

/-- The walk begins with the interfaces that the type names, and stays among those above it. -/
theorem supertypes_of_superclass?_none (hf : idx.Follows h) (ht : h.superclass? t.name = none) :
    let walk := idx.supertypes t
    walk.failure = none ∧ fresh [t.name] (h.interfaces t.name) <+: walk.types
      ∧ ∀ n, n ∈ walk.types.map (·.name) ↔ n ≠ t.name ∧ ReflTransGen h.Implements t.name n := by
  intro walk
  let queue := fresh [t.name] (h.interfaces t.name)
  have hchain : idx.superclassChain [t.name] t = .ended :=
    superclassChain_of_none ((hf.superclass t).trans (congrArg Except.ok ht))
  have hwalk : walk
      = ⟨(idx.interfaceClosure (queue.map (·.name) ++ [t.name]) queue).types, none⟩ := by
    have heq := supertypes_eq hf t
    simpa [hchain, Walk.ended] using heq
  -- The whole queue is walked before anything that it leads to.
  have hqueue := interfaceClosure_append hf (queue.map (·.name) ++ [t.name]) queue []
  refine ⟨congrArg Walk.failure hwalk, ?_, ?_⟩
  · rw [hwalk]
    rw [List.append_nil] at hqueue
    exact ⟨_, hqueue.symm⟩
  · intro n
    rw [mem_supertypes_types_iff hf, reaches_iff_of_superclass?_none ht]

end TypeIndex

/-! ## Superclasses that count -/

namespace StaticIndex

/-- The superclass that an edit writes for its subject, be it none. -/
def Edit.superclass? : Edit → Option (Option String)
  | addClass _ superclass => some superclass
  | insertEntry entry     => some entry.decl.superclass
  | _                     => none

theorem Edit.superclass_change (e : Edit) (d : TypeDecl) :
    (e.change d).superclass = e.superclass?.getD d.superclass := by
  cases e <;> rfl

/-- The superclass last written for a type, by an edit or else in the index before. -/
def writtenSuperclass (s : StaticIndex) (edits : List Edit) (n : String) : Option String :=
  ((edits.filter (·.subject = n)).filterMap Edit.superclass?).getLast?.getD
    ((s.find? n).bind (·.superclass))

theorem writtenSuperclass_cons (s : StaticIndex) (e : Edit) (edits : List Edit) (n : String) :
    s.writtenSuperclass (e :: edits) n = (s.apply e).writtenSuperclass edits n := by
  unfold writtenSuperclass
  by_cases he : e.subject = n
  · subst he
    have hfind : (s.apply e).find? e.subject = some (e.change ((s.find? e.subject).getD {})) :=
      (find?_apply ..).trans (if_pos rfl)
    rw [List.filter_cons_of_pos (by simp), List.filterMap_cons, hfind, Option.bind_some,
      e.superclass_change]
    cases e.superclass? with
    | none => cases s.find? e.subject <;> rfl
    | some written =>
      rw [List.getLast?_cons]
      cases ((edits.filter (·.subject = e.subject)).filterMap Edit.superclass?).getLast? <;> rfl
  · rw [List.filter_cons_of_neg (by simpa using he), find?_apply_of_ne (Ne.symm he)]

theorem superclass_applyAll (s : StaticIndex) (edits : List Edit) (n : String) :
    ((s.applyAll edits).find? n).bind (·.superclass) = s.writtenSuperclass edits n := by
  induction edits generalizing s with
  | nil => rfl
  | cons e edits ih => exact (ih (s.apply e)).trans (s.writtenSuperclass_cons e edits n).symm

theorem superclass?_of_interface {s : StaticIndex} {n : String} {d : TypeDecl}
    (hd : s.find? n = some d)
    (hn : d.kind = .interfaceKind ∨ d.kind = .annotationKind ∨ n = JavaType.objectName) :
    s.superclass? n = d.superclass.bind s.typeOf? := by
  -- Only classes and enums other than the root class get one that is not written.
  have hdefault : ¬ ((d.kind = .classKind ∨ d.kind = .enumKind) ∧ n ≠ JavaType.objectName) := by
    rintro ⟨hkind, hne⟩
    rcases hn with hn | hn | hn
    · simp [hn] at hkind
    · simp [hn] at hkind
    · exact hne hn
  rw [superclass?_eq, hd, Option.bind_some]
  cases d.superclass with
  | none => exact if_neg hdefault
  | some written => rfl

theorem typeOf?_eq_none_iff {s : StaticIndex} {n : String} :
    s.typeOf? n = none ↔ s.find? n = none := by
  rw [typeOf?_eq, Option.map_eq_none_iff]

/-- Whatever edits lead to an index, an interface, an annotation and the root class have no
superclass in it exactly if the superclass last written for them, if any, is none of its types. The
walk of such a type begins with the interfaces that the type names and meets those above it only. -/
theorem superclass_eq_none_iff_written (s : StaticIndex) (edits : List Edit) (t : JavaType)
    (d : TypeDecl) (hd : (s.applyAll edits).find? t.name = some d)
    (ht : d.kind = .interfaceKind ∨ d.kind = .annotationKind ∨ t.name = JavaType.objectName) :
    let s' := s.applyAll edits
    (s'.toIndex.superclass t = .ok none
        ↔ ∀ m, s.writtenSuperclass edits t.name = some m → s'.find? m = none)
      ∧ (s'.toIndex.superclass t = .ok none →
        let walk := s'.toIndex.supertypes t
        walk.failure = none
          ∧ TypeIndex.fresh [t.name] (s'.interfacesOf t.name) <+: walk.types
          ∧ ∀ n, n ∈ walk.types.map (·.name)
            ↔ n ≠ t.name ∧ ReflTransGen s'.hierarchy.Implements t.name n) := by
  intro s'
  have hsuper : s'.superclass? t.name = d.superclass.bind s'.typeOf? :=
    superclass?_of_interface hd ht
  have hwritten : s.writtenSuperclass edits t.name = d.superclass := by
    rw [← superclass_applyAll, hd]
    rfl
  constructor
  · have hnone : s'.toIndex.superclass t = .ok none ↔ s'.superclass? t.name = none :=
      ⟨Except.ok.inj, congrArg Except.ok⟩
    rw [hnone, hsuper, hwritten, Option.bind_eq_none_iff]
    exact forall₂_congr fun m _ => typeOf?_eq_none_iff
  · intro hnone
    exact TypeIndex.supertypes_of_superclass?_none s'.follows (Except.ok.inj hnone)

/-- Two interfaces that extend each other. The first was a class once, and its superclass is unknown
to the index. -/
def danglingEdits : List Edit := [
  .addClass "a.I" (some "a.Gone"), .addInterface "a.I" ["a.J"], .addInterface "a.J" ["a.I"]]

theorem superclass_eq_none_iff_written_dangling :
    let s := empty.applyAll danglingEdits
    let i : JavaType := ⟨"a.I", .interfaceKind⟩
    let j : JavaType := ⟨"a.J", .interfaceKind⟩
    let d : TypeDecl :=
      { kind := .interfaceKind, superclass := some "a.Gone", interfaces := ["a.J"] }
    s.find? i.name = some d ∧ d.kind = .interfaceKind
      ∧ s.toIndex.superclass i = .ok none
      ∧ [j] <+: (s.toIndex.supertypes i).types
      ∧ ∀ n, n ∈ (s.toIndex.supertypes i).types.map (·.name)
        ↔ n ≠ "a.I" ∧ ReflTransGen s.hierarchy.Implements "a.I" n := by
  intro s i j d
  have hd : (empty.applyAll danglingEdits).find? "a.I" = some d := rfl
  obtain ⟨hnone, hwalk⟩ := superclass_eq_none_iff_written empty danglingEdits i d hd (.inl rfl)
  have hsuper : s.toIndex.superclass i = .ok none := by
    refine hnone.2 ?_
    intro m hm
    obtain rfl : "a.Gone" = m := Option.some.inj hm
    rfl
  obtain ⟨-, hinitial, hnames⟩ := hwalk hsuper
  have hnamed : (empty.applyAll danglingEdits).interfacesOf "a.I" = [j] := rfl
  have hqueue : TypeIndex.fresh ["a.I"] [j] = [j] := by simp [TypeIndex.fresh, j]
  rw [show i.name = "a.I" from rfl, hnamed, hqueue] at hinitial
  exact ⟨hd, rfl, hsuper, hinitial, hnames⟩

/-- A class that became an interface after its superclass was written. -/
def raisedInterface : StaticIndex :=
  empty.applyAll [.addClass "a.A" none, .addClass "a.I" (some "a.A"), .addInterface "a.I" []]

/-- The interface keeps the superclass of the class that it was, and its walk meets that class. The
root class keeps a superclass that is written for it. -/
theorem superclass_raisedInterface :
    let idx := raisedInterface.toIndex
    let i : JavaType := ⟨"a.I", .interfaceKind⟩
    let a : JavaType := ⟨"a.A", .classKind⟩
    let rooted := (raisedInterface.apply (.addClass JavaType.objectName (some "a.A"))).toIndex
    let object : JavaType := ⟨JavaType.objectName, .classKind⟩
    idx.findType "a.I" = .ok (some i) ∧ idx.superclass i = .ok (some a)
      ∧ (idx.supertypes i).types = [a]
      ∧ (∀ n, ReflTransGen raisedInterface.hierarchy.Implements "a.I" n → n = "a.I")
      ∧ rooted.findType JavaType.objectName = .ok (some object)
      ∧ rooted.superclass object = .ok (some a) := by
  intro idx i a rooted object
  have hI : raisedInterface.superclass? "a.I" = some a := rfl
  have hA : raisedInterface.superclass? "a.A" = none := rfl
  have hObject : (raisedInterface.apply (.addClass JavaType.objectName (some "a.A"))).superclass?
      JavaType.objectName = some a := rfl
  have hlisted : raisedInterface.hierarchy.interfaces "a.I" = []
      ∧ raisedInterface.hierarchy.interfaces "a.A" = [] := ⟨rfl, rfl⟩
  have hchain : (raisedInterface.toIndex.superclassChain ["a.I"] i).types = [a] := by
    rw [TypeIndex.superclassChain_of_new (congrArg Except.ok hI) (by decide),
      TypeIndex.superclassChain_of_none (congrArg Except.ok hA)]
    rfl
  have hwalk : (idx.supertypes i).types = [a] := by
    rw [TypeIndex.supertypes_eq raisedInterface.follows]
    simp [i, a, hchain, hlisted, TypeIndex.fresh, TypeIndex.interfaceClosure_nil, Walk.ended]
  refine ⟨rfl, congrArg Except.ok hI, hwalk, ?_, rfl, congrArg Except.ok hObject⟩
  intro n hn
  -- The interface extends nothing, so no link leads away from it.
  rcases hn.cases_head with hstart | ⟨b, ⟨t, ht, -⟩, -⟩
  · exact hstart.symm
  · exact absurd (hlisted.1 ▸ ht) List.not_mem_nil

end StaticIndex

end Jsni
