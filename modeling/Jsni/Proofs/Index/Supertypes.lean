import Mathlib.Data.List.Nodup
import Mathlib.Data.List.Perm.Subperm
import Jsni.Proofs.Index.Hierarchy

/-!
# Supertypes, each once

No walk meets a name twice or comes back to the name it started from, be the hierarchy cyclic or a
look-up failing. In a static index the walk therefore ends after no more types than the index holds,
and what it has met by then is all that the hierarchy reaches.
-/

namespace Jsni

open Relation

namespace TypeIndex

/-! ## Names not met before -/

/-- The names of several types differ from each other and from those seen before. -/
structure AreNew (seen : List String) (ts : List JavaType) : Prop where
  nodup : (ts.map (·.name)).Nodup
  notMem : ∀ t ∈ ts, t.name ∉ seen

theorem areNew_nil (seen : List String) : AreNew seen [] :=
  ⟨.nil, by simp⟩

theorem areNew_cons {seen : List String} {t : JavaType} {ts : List JavaType}
    (ht : t.name ∉ seen) (hts : AreNew (t.name :: seen) ts) : AreNew seen (t :: ts) := by
  refine ⟨List.nodup_cons.2 ⟨?_, hts.nodup⟩, ?_⟩
  · intro hmem
    obtain ⟨u, hu, hname⟩ := List.mem_map.1 hmem
    exact hts.notMem u hu (hname ▸ List.mem_cons_self)
  · intro u hu
    cases hu with
    | head => exact ht
    | tail _ hu => exact fun hmem => hts.notMem u hu (List.mem_cons_of_mem _ hmem)

/-- What comes later is new to what came before. -/
theorem AreNew.append {seen seen' : List String} {ts us : List JavaType} (hts : AreNew seen ts)
    (hus : AreNew seen' us) (hseen : seen ⊆ seen') (hnames : ts.map (·.name) ⊆ seen') :
    AreNew seen (ts ++ us) := by
  refine ⟨?_, ?_⟩
  · rw [List.map_append]
    refine hts.nodup.append hus.nodup ?_
    intro n hn hn'
    obtain ⟨u, hu, rfl⟩ := List.mem_map.1 hn'
    exact hus.notMem u hu (hnames hn)
  · intro u hu
    rcases List.mem_append.1 hu with hu | hu
    · exact hts.notMem u hu
    · exact fun hmem => hus.notMem u hu (hseen hmem)

theorem AreNew.of_isPrefix {seen : List String} {ts us : List JavaType} (hus : AreNew seen us)
    (hinitial : ts <+: us) : AreNew seen ts :=
  ⟨hus.nodup.sublist (hinitial.sublist.map _), fun t ht => hus.notMem t (hinitial.subset ht)⟩

theorem areNew_fresh (seen : List String) (ts : List JavaType) :
    AreNew seen (fresh seen ts) := by
  fun_induction fresh seen ts with
  | case1 => exact areNew_nil _
  | case2 seen t ts hseen ih => exact ih
  | case3 seen t ts hseen ih => exact areNew_cons hseen ih

/-! ## The parts of a walk -/

variable {idx : TypeIndex} {h : Hierarchy}

theorem areNew_superclassChain (idx : TypeIndex) (seen : List String) (t : JavaType) :
    AreNew seen (idx.superclassChain seen t).types := by
  fun_induction superclassChain idx seen t with
  | case1 => exact areNew_nil _
  | case2 => exact areNew_nil _
  | case3 => exact areNew_nil _
  | case4 seen t s heq hs ih => exact areNew_cons hs ih

theorem areNew_directInterfaces {seen : List String} {ts queue : List JavaType}
    (hqueue : idx.directInterfaces seen ts = .ok queue) : AreNew seen queue := by
  induction ts generalizing seen queue with
  | nil =>
    cases hqueue
    exact areNew_nil _
  | cons t ts ih =>
    unfold directInterfaces at hqueue
    split at hqueue
    · cases hqueue
    · rename_i is _
      cases hrest : idx.directInterfaces ((fresh seen is).map (·.name) ++ seen) ts with
      | error e => simp [hrest, Except.map] at hqueue
      | ok rest =>
        simp only [hrest, Except.map, Except.ok.injEq] at hqueue
        subst hqueue
        exact (areNew_fresh seen is).append (ih hrest) (List.subset_append_right ..)
          (List.subset_append_left ..)

/-- The closure works through its queue and goes on with new names, as far as it comes. -/
theorem exists_prefix_interfaceClosure (idx : TypeIndex) (seen : List String)
    (queue : List JavaType) : ∃ more, AreNew seen more ∧
      (idx.interfaceClosure seen queue).types <+: queue ++ more := by
  fun_induction interfaceClosure idx seen queue with
  | case1 => exact ⟨[], areNew_nil _, List.nil_prefix⟩
  | case2 => exact ⟨[], areNew_nil _, List.nil_prefix⟩
  | case3 seen i queue is heq new ih =>
    obtain ⟨more, hmore, hinitial⟩ := ih
    refine ⟨new ++ more, ?_, ?_⟩
    · exact (areNew_fresh seen is).append hmore (List.subset_append_right ..)
        (List.subset_append_left ..)
    · rw [List.cons_append, ← List.append_assoc]
      exact List.cons_prefix_cons.2 ⟨rfl, hinitial⟩

/-- The type and its superclasses, from near to far. -/
def classes (idx : TypeIndex) (t : JavaType) : List JavaType :=
  t :: (idx.superclassChain [t.name] t).types

/-- The interfaces above several types, those that the types name directly first. -/
def interfaceWalk (idx : TypeIndex) (ts : List JavaType) : Walk :=
  let seen := ts.map (·.name)
  match idx.directInterfaces seen ts with
  | .error e  => .failed e
  | .ok queue => idx.interfaceClosure (queue.map (·.name) ++ seen) queue

theorem supertypes_eq_andThen (idx : TypeIndex) (t : JavaType) :
    idx.supertypes t
      = (idx.superclassChain [t.name] t).andThen (idx.interfaceWalk (idx.classes t)) :=
  rfl

theorem cons_supertypes_types {t : JavaType}
    (hended : (idx.superclassChain [t.name] t).failure = none) :
    t :: (idx.supertypes t).types
      = idx.classes t ++ (idx.interfaceWalk (idx.classes t)).types := by
  rw [supertypes_eq_andThen, Walk.andThen, hended]
  rfl

theorem areNew_interfaceWalk (idx : TypeIndex) (ts : List JavaType) :
    AreNew (ts.map (·.name)) (idx.interfaceWalk ts).types := by
  unfold interfaceWalk
  simp only
  split
  · exact areNew_nil _
  · rename_i queue hqueue
    obtain ⟨more, hmore, hinitial⟩ := idx.exists_prefix_interfaceClosure
      (queue.map (·.name) ++ ts.map (·.name)) queue
    have hnew : AreNew (ts.map (·.name)) (queue ++ more) :=
      (areNew_directInterfaces hqueue).append hmore (List.subset_append_right ..)
        (List.subset_append_left ..)
    exact hnew.of_isPrefix hinitial

/-! ## Walks -/

/-- Every walk meets new names only, whether it ends or fails. -/
theorem areNew_supertypes (idx : TypeIndex) (t : JavaType) :
    AreNew [t.name] (idx.supertypes t).types := by
  have hchain : AreNew [t.name] (idx.superclassChain [t.name] t).types :=
    areNew_superclassChain idx _ t
  rw [supertypes_eq_andThen]
  unfold Walk.andThen
  split
  · exact hchain
  · refine hchain.append (areNew_interfaceWalk idx (idx.classes t)) ?_ ?_
    · simp [classes]
    · exact List.subset_cons_self ..

theorem Follows.mem_typeNames_of_reaches (hf : idx.Follows h) {a b : String}
    (hreach : h.Reaches a b) (hne : b ≠ a) : b ∈ idx.typeNames := by
  obtain ⟨c, hsuper, hinterface⟩ := hreach
  -- The last link of the path, if any, leads to a name of the index.
  rcases hinterface.cases_tail with rfl | ⟨d, -, u, hu, rfl⟩
  · rcases hsuper.cases_tail with rfl | ⟨d, -, u, hu, rfl⟩
    · exact absurd rfl hne
    · have hlink := hf.superclass ⟨d, .classKind⟩
      exact idx.superclass_known (hlink.trans (congrArg Except.ok hu))
  · exact idx.interfaces_known (hf.interfaces ⟨d, .classKind⟩) u hu

/-- The walk meets what the hierarchy reaches, apart from the start. -/
theorem mem_supertypes_types_iff (hf : idx.Follows h) (t : JavaType) (n : String) :
    n ∈ (idx.supertypes t).types.map (·.name) ↔ n ≠ t.name ∧ h.Reaches t.name n := by
  have hnew : t.name ∉ (idx.supertypes t).types.map (·.name) := by
    intro hmem
    obtain ⟨u, hu, hname⟩ := List.mem_map.1 hmem
    exact (idx.areNew_supertypes t).notMem u hu (List.mem_singleton.2 hname)
  rw [← mem_supertypes_iff hf, List.map_cons, List.mem_cons]
  constructor
  · intro hn
    exact ⟨fun heq => hnew (heq ▸ hn), .inr hn⟩
  · rintro ⟨hne, heq | hn⟩
    · exact absurd heq hne
    · exact hn

end TypeIndex

/-- The walk of a type ends, after at most as many types as the index holds. It meets exactly the
names that the type reaches, each once and never its own. -/
theorem StaticIndex.supertypes_once (s : StaticIndex) (t : JavaType) :
    let walk := s.toIndex.supertypes t
    let names := walk.types.map (·.name)
    walk.steps = walk.types.map .ok ∧ walk.steps.length ≤ s.size ∧
      t.name ∉ names ∧ names.Nodup ∧
      ∀ n, n ∈ names ↔ n ≠ t.name ∧ s.hierarchy.Reaches t.name n := by
  intro walk names
  have hmem : ∀ n, n ∈ names ↔ n ≠ t.name ∧ s.hierarchy.Reaches t.name n :=
    TypeIndex.mem_supertypes_types_iff s.follows t
  have hnodup : names.Nodup := (s.toIndex.areNew_supertypes t).nodup
  have hsteps : walk.steps = walk.types.map .ok := by
    simp [walk, Walk.steps, TypeIndex.supertypes_eq s.follows]
  have hknown : names ⊆ s.names := by
    intro n hn
    obtain ⟨hne, hreach⟩ := (hmem n).1 hn
    exact s.follows.mem_typeNames_of_reaches hreach hne
  have hlength : walk.steps.length ≤ s.size := by
    have hle : names.length ≤ s.names.length := (hnodup.subperm hknown).length_le
    simpa [hsteps, names, StaticIndex.names, StaticIndex.size] using hle
  exact ⟨hsteps, hlength, fun hn => ((hmem _).1 hn).1 rfl, hnodup, hmem⟩

end Jsni
