import Mathlib.Logic.Relation
import Jsni.Index.Static
import Jsni.Index.Supertypes

/-!
# Hierarchies

The links that an index reports span a graph over type names, which may have cycles and diamonds.
The supertype walk of a type ends without a failure and meets exactly the types that the graph
reaches from it by superclass links and, after those, interface links.
-/

namespace Jsni

open Relation

/-! ## Links -/

/-- The superclass and the interfaces of each type, by name. -/
structure Hierarchy where
  superclass? : String → Option JavaType
  interfaces : String → List JavaType

namespace Hierarchy

def Extends (h : Hierarchy) (a b : String) : Prop :=
  ∃ t, h.superclass? a = some t ∧ t.name = b

def Implements (h : Hierarchy) (a b : String) : Prop :=
  ∃ t ∈ h.interfaces a, t.name = b

/-- Superclass links lead from `a` to some type, and interface links from that type to `b`. -/
def Reaches (h : Hierarchy) (a b : String) : Prop :=
  ∃ c, ReflTransGen h.Extends a c ∧ ReflTransGen h.Implements c b

/-- A set of types holds all that its type `a` reaches once it holds the superclasses of a part
of it that `a` is in, and the interfaces of each of its types. -/
theorem Reaches.of_closed {h : Hierarchy} {a b : String} (hreach : h.Reaches a b)
    (classes types : String → Prop) (ha : classes a) (hsub : ∀ n, classes n → types n)
    (hclasses : ∀ n m, classes n → h.Extends n m → classes m)
    (htypes : ∀ n m, types n → h.Implements n m → types m) : types b := by
  obtain ⟨c, hsuper, hinterface⟩ := hreach
  -- The path climbs within `classes` to `c`, and from there within `types`.
  have hc : classes c := by
    clear hinterface
    induction hsuper with
    | refl => exact ha
    | tail _ hlink ih => exact hclasses _ _ ih hlink
  induction hinterface with
  | refl => exact hsub c hc
  | tail _ hlink ih => exact htypes _ _ ih hlink

end Hierarchy

/-- The hierarchy of a static index. -/
def StaticIndex.hierarchy (s : StaticIndex) : Hierarchy :=
  ⟨s.superclass?, s.interfacesOf⟩

/-- The index answers for the links of a type by its name alone, and never fails to. -/
structure TypeIndex.Follows (idx : TypeIndex) (h : Hierarchy) : Prop where
  superclass : ∀ t, idx.superclass t = .ok (h.superclass? t.name)
  interfaces : ∀ t, idx.interfaces t = .ok (h.interfaces t.name)

theorem StaticIndex.follows (s : StaticIndex) : s.toIndex.Follows s.hierarchy :=
  ⟨fun _ => rfl, fun _ => rfl⟩

namespace TypeIndex

/-! ## New names -/

theorem mem_seen_or_fresh {seen : List String} {ts : List JavaType} {t : JavaType} (ht : t ∈ ts) :
    t.name ∈ seen ∨ t.name ∈ (fresh seen ts).map (·.name) := by
  fun_induction fresh seen ts with
  | case1 => simp at ht
  | case2 seen u us hseen ih =>
    cases ht with
    | head => exact .inl hseen
    | tail _ ht => exact ih ht
  | case3 seen u us hseen ih =>
    cases ht with
    | head => simp
    | tail _ ht =>
      rcases ih ht with hmem | hmem
      · rcases List.mem_cons.1 hmem with heq | hmem
        · simp [heq]
        · exact .inl hmem
      · exact .inr (List.mem_cons_of_mem _ hmem)

theorem fresh_congr {seen seen' : List String} (hseen : ∀ n, n ∈ seen ↔ n ∈ seen')
    (ts : List JavaType) : fresh seen ts = fresh seen' ts := by
  induction ts generalizing seen seen' with
  | nil => rfl
  | cons t ts ih =>
    simp only [fresh, hseen t.name]
    split
    · exact ih hseen
    · exact congrArg (t :: ·) (ih fun n => by simp [hseen n])

theorem fresh_append (seen : List String) (ts us : List JavaType) :
    fresh seen (ts ++ us)
      = fresh seen ts ++ fresh ((fresh seen ts).map (·.name) ++ seen) us := by
  fun_induction fresh seen ts with
  | case1 => simp
  | case2 seen t ts hseen ih => simp [fresh, hseen, ih]
  | case3 seen t ts hseen ih =>
    simp only [List.cons_append, fresh, hseen, if_false, ih]
    -- Both sides have seen the same names by then, only in another order.
    refine congrArg (t :: fresh (t.name :: seen) ts ++ ·) (fresh_congr ?_ us)
    intro n
    simp [or_left_comm]

variable {idx : TypeIndex} {h : Hierarchy}

/-! ## Steps of a walk -/

theorem superclassChain_of_error {seen : List String} {t : JavaType} {e : IndexError}
    (ht : idx.superclass t = .error e) : idx.superclassChain seen t = .failed e := by
  rw [superclassChain]
  split <;> simp_all

theorem superclassChain_of_none {seen : List String} {t : JavaType}
    (ht : idx.superclass t = .ok none) : idx.superclassChain seen t = .ended := by
  rw [superclassChain]
  split <;> simp_all

theorem superclassChain_of_seen {seen : List String} {t s : JavaType}
    (ht : idx.superclass t = .ok (some s)) (hs : s.name ∈ seen) :
    idx.superclassChain seen t = .ended := by
  rw [superclassChain]
  split <;> simp_all

theorem superclassChain_of_new {seen : List String} {t s : JavaType}
    (ht : idx.superclass t = .ok (some s)) (hs : s.name ∉ seen) :
    idx.superclassChain seen t = (idx.superclassChain (s.name :: seen) s).cons s := by
  rw [superclassChain]
  split <;> simp_all

theorem interfaceClosure_nil (idx : TypeIndex) (seen : List String) :
    idx.interfaceClosure seen [] = .ended := by
  rw [interfaceClosure]

theorem interfaceClosure_of_error {seen : List String} {i : JavaType} {queue : List JavaType}
    {e : IndexError} (hi : idx.interfaces i = .error e) :
    idx.interfaceClosure seen (i :: queue) = .failed e := by
  rw [interfaceClosure]
  split <;> simp_all

theorem interfaceClosure_cons {seen : List String} {i : JavaType} {queue is : List JavaType}
    (hi : idx.interfaces i = .ok is) :
    idx.interfaceClosure seen (i :: queue)
      = (idx.interfaceClosure ((fresh seen is).map (·.name) ++ seen) (queue ++ fresh seen is)).cons
          i := by
  rw [interfaceClosure]
  split <;> simp_all

/-! ## The superclass chain -/

theorem failure_superclassChain (hf : idx.Follows h) (seen : List String) (t : JavaType) :
    (idx.superclassChain seen t).failure = none := by
  fun_induction superclassChain idx seen t with
  | case1 seen t e heq => simp [hf.superclass] at heq
  | case2 => rfl
  | case3 => rfl
  | case4 seen t s heq hs ih => exact ih

theorem extends_of_mem_superclassChain (hf : idx.Follows h) {seen : List String} {t u : JavaType}
    (hu : u ∈ (idx.superclassChain seen t).types) : ReflTransGen h.Extends t.name u.name := by
  fun_induction superclassChain idx seen t with
  | case1 => simp [Walk.failed] at hu
  | case2 => simp [Walk.ended] at hu
  | case3 => simp [Walk.ended] at hu
  | case4 seen t s heq hs ih =>
    have hlink : h.Extends t.name s.name :=
      ⟨s, Except.ok.inj ((hf.superclass t).symm.trans heq), rfl⟩
    rcases List.mem_cons.1 hu with rfl | hu
    · exact .single hlink
    · exact (ReflTransGen.single hlink).trans (ih hu)

/-- The chain stops only where the superclass was seen before. -/
theorem superclass_mem_superclassChain (hf : idx.Follows h) {seen : List String} {t u v : JavaType}
    (hu : u ∈ t :: (idx.superclassChain seen t).types) (hv : h.superclass? u.name = some v) :
    v.name ∈ seen ∨ v.name ∈ (idx.superclassChain seen t).types.map (·.name) := by
  fun_induction superclassChain idx seen t with
  | case1 seen t e heq => simp [hf.superclass] at heq
  | case2 seen t heq =>
    have htu : u = t := by simpa [Walk.ended] using hu
    subst htu
    simp [hf.superclass, hv] at heq
  | case3 seen t s heq hs =>
    -- The superclass was seen, which is why the chain ends.
    have htu : u = t := by simpa [Walk.ended] using hu
    subst htu
    have hsv : v = s := by simpa [hf.superclass, hv] using heq
    exact .inl (hsv ▸ hs)
  | case4 seen t s heq hs ih =>
    rcases List.mem_cons.1 hu with rfl | hu
    · have hsv : v = s := by simpa [hf.superclass, hv] using heq
      simp [Walk.cons, hsv]
    · rcases ih hu with hmem | hmem
      · rcases List.mem_cons.1 hmem with heq | hmem
        · simp [Walk.cons, heq]
        · exact .inl hmem
      · exact .inr (List.mem_cons_of_mem _ hmem)

/-! ## Interfaces -/

theorem directInterfaces_eq (hf : idx.Follows h) (seen : List String) (ts : List JavaType) :
    idx.directInterfaces seen ts = .ok (fresh seen (ts.flatMap fun t => h.interfaces t.name)) := by
  induction ts generalizing seen with
  | nil => rfl
  | cons t ts ih =>
    simp only [directInterfaces, hf.interfaces, ih, List.flatMap_cons, fresh_append]
    rfl

theorem failure_interfaceClosure (hf : idx.Follows h) (seen : List String)
    (queue : List JavaType) : (idx.interfaceClosure seen queue).failure = none := by
  fun_induction interfaceClosure idx seen queue with
  | case1 => rfl
  | case2 seen i queue e heq => simp [hf.interfaces] at heq
  | case3 seen i queue is heq new ih => exact ih

theorem mem_interfaceClosure_of_mem (hf : idx.Follows h) {seen : List String}
    {queue : List JavaType} {u : JavaType} (hu : u ∈ queue) :
    u ∈ (idx.interfaceClosure seen queue).types := by
  fun_induction interfaceClosure idx seen queue with
  | case1 => simp at hu
  | case2 seen i queue e heq => simp [hf.interfaces] at heq
  | case3 seen i queue is heq new ih =>
    -- The rest of the queue stays in it until its turn comes.
    rcases List.mem_cons.1 hu with rfl | hu
    · exact List.mem_cons_self
    · exact List.mem_cons_of_mem _ (ih (List.mem_append_left _ hu))

theorem implements_of_mem_interfaceClosure (hf : idx.Follows h) {seen : List String}
    {queue : List JavaType} {u : JavaType} (hu : u ∈ (idx.interfaceClosure seen queue).types) :
    ∃ i ∈ queue, ReflTransGen h.Implements i.name u.name := by
  fun_induction interfaceClosure idx seen queue with
  | case1 => simp [Walk.ended] at hu
  | case2 => simp [Walk.failed] at hu
  | case3 seen i queue is heq new ih =>
    rcases List.mem_cons.1 hu with rfl | hu
    · exact ⟨u, List.mem_cons_self, .refl⟩
    · obtain ⟨j, hj, hpath⟩ := ih hu
      rcases List.mem_append.1 hj with hj | hj
      · exact ⟨j, List.mem_cons_of_mem _ hj, hpath⟩
      · -- The path to `u` begins with the link for which `j` was queued.
        have hdirect : j ∈ h.interfaces i.name := by
          rw [Except.ok.inj ((hf.interfaces i).symm.trans heq)]
          exact mem_of_mem_fresh hj
        exact ⟨i, List.mem_cons_self, .head ⟨j, hdirect, rfl⟩ hpath⟩

/-- The closure leaves out an interface of one of its types only if it was seen before. -/
theorem interfaces_mem_interfaceClosure (hf : idx.Follows h) {seen : List String}
    {queue : List JavaType} {u v : JavaType} (hu : u ∈ (idx.interfaceClosure seen queue).types)
    (hv : v ∈ h.interfaces u.name) :
    v.name ∈ seen ∨ v.name ∈ (idx.interfaceClosure seen queue).types.map (·.name) := by
  fun_induction interfaceClosure idx seen queue with
  | case1 => simp [Walk.ended] at hu
  | case2 => simp [Walk.failed] at hu
  | case3 seen i queue is heq new ih =>
    -- What is new of an interface joins the queue, and the queue is part of the closure.
    have hqueued : v.name ∈ new.map (·.name) →
        v.name ∈ (i :: (idx.interfaceClosure (new.map (·.name) ++ seen) (queue ++ new)).types).map
          (·.name) := by
      intro hmem
      obtain ⟨w, hw, hname⟩ := List.mem_map.1 hmem
      exact List.mem_map.2 ⟨w, List.mem_cons_of_mem _
        (mem_interfaceClosure_of_mem hf (List.mem_append_right _ hw)), hname⟩
    rcases List.mem_cons.1 hu with rfl | hu
    · rw [Except.ok.inj ((hf.interfaces u).symm.trans heq)] at hv
      exact (mem_seen_or_fresh hv).imp_right hqueued
    · rcases ih hu with hmem | hmem
      · rcases List.mem_append.1 hmem with hmem | hmem
        · exact .inr (hqueued hmem)
        · exact .inl hmem
      · exact .inr (List.mem_cons_of_mem _ hmem)

/-! ## The walk -/

/-- The walk's two parts: the chain, then the closure of its interfaces. -/
theorem supertypes_eq (hf : idx.Follows h) (t : JavaType) :
    let chain := t :: (idx.superclassChain [t.name] t).types
    let seen := chain.map (·.name)
    let queue := fresh seen (chain.flatMap fun c => h.interfaces c.name)
    idx.supertypes t
      = ⟨(idx.superclassChain [t.name] t).types
          ++ (idx.interfaceClosure (queue.map (·.name) ++ seen) queue).types, none⟩ := by
  intro chain seen queue
  have hqueue : idx.directInterfaces seen chain = .ok queue := directInterfaces_eq hf _ _
  unfold supertypes
  simp only [Walk.andThen, failure_superclassChain hf]
  rw [show idx.directInterfaces _ (t :: (idx.superclassChain [t.name] t).types) = .ok queue
    from hqueue]
  simp [failure_interfaceClosure hf]
  rfl

theorem reaches_of_mem_supertypes (hf : idx.Follows h) {t u : JavaType}
    (hu : u ∈ t :: (idx.supertypes t).types) : h.Reaches t.name u.name := by
  have hchain : ∀ c ∈ t :: (idx.superclassChain [t.name] t).types,
      ReflTransGen h.Extends t.name c.name := by
    intro c hc
    rcases List.mem_cons.1 hc with rfl | hc
    · exact .refl
    · exact extends_of_mem_superclassChain hf hc
  -- A type of the closure is below an interface that a class of the chain lists.
  rw [supertypes_eq hf, ← List.cons_append, List.mem_append] at hu
  rcases hu with hu | hu
  · exact ⟨u.name, hchain u hu, .refl⟩
  · obtain ⟨i, hi, hpath⟩ := implements_of_mem_interfaceClosure hf hu
    obtain ⟨c, hc, hdirect⟩ := List.mem_flatMap.1 (mem_of_mem_fresh hi)
    exact ⟨c.name, hchain c hc, .head ⟨i, hdirect, rfl⟩ hpath⟩

theorem mem_supertypes_of_reaches (hf : idx.Follows h) {t : JavaType} {n : String}
    (hreach : h.Reaches t.name n) : n ∈ (t :: (idx.supertypes t).types).map (·.name) := by
  let chain := t :: (idx.superclassChain [t.name] t).types
  let seen := chain.map (·.name)
  let queue := fresh seen (chain.flatMap fun c => h.interfaces c.name)
  let closure := (idx.interfaceClosure (queue.map (·.name) ++ seen) queue).types
  have hwalk : t :: (idx.supertypes t).types = chain ++ closure := by
    rw [supertypes_eq hf]
    rfl
  have hmem : ∀ m, m ∈ seen ∨ m ∈ closure.map (·.name) →
      m ∈ (t :: (idx.supertypes t).types).map (·.name) := by
    intro m hm
    rwa [hwalk, List.map_append, List.mem_append]
  have hqueue : ∀ m ∈ queue.map (·.name), m ∈ closure.map (·.name) := fun m hm =>
    List.map_subset _ (fun i hi => mem_interfaceClosure_of_mem hf hi) hm
  refine hmem n (hreach.of_closed (· ∈ seen) (fun m => m ∈ seen ∨ m ∈ closure.map (·.name))
    List.mem_cons_self (fun _ => .inl) ?_ ?_)
  · -- The chain holds the superclasses of its types.
    rintro n m hn ⟨v, hv, rfl⟩
    obtain ⟨u, hu, rfl⟩ := List.mem_map.1 hn
    rcases superclass_mem_superclassChain hf hu hv with hstart | hnext
    · rw [List.mem_singleton.1 hstart]
      exact List.mem_cons_self
    · exact List.mem_cons_of_mem _ hnext
  · -- Chain and closure together hold the interfaces of their types.
    rintro n m hn ⟨v, hv, rfl⟩
    rcases hn with hn | hn <;> obtain ⟨u, hu, rfl⟩ := List.mem_map.1 hn
    · have hdirect : v ∈ chain.flatMap fun c => h.interfaces c.name :=
        List.mem_flatMap.2 ⟨u, hu, hv⟩
      have hfresh : v.name ∈ seen ∨ v.name ∈ queue.map (·.name) := mem_seen_or_fresh hdirect
      rcases hfresh with hold | hnew
      · exact .inl hold
      · exact .inr (hqueue _ hnew)
    · rcases interfaces_mem_interfaceClosure hf hu hv with hold | hnew
      · rcases List.mem_append.1 hold with hold | hold
        · exact .inr (hqueue _ hold)
        · exact .inl hold
      · exact .inr hnew

/-- The walk misses nothing that the hierarchy reaches and meets nothing else. -/
theorem mem_supertypes_iff (hf : idx.Follows h) (t : JavaType) (n : String) :
    n ∈ (t :: (idx.supertypes t).types).map (·.name) ↔ h.Reaches t.name n := by
  constructor
  · intro hn
    obtain ⟨u, hu, rfl⟩ := List.mem_map.1 hn
    exact reaches_of_mem_supertypes hf hu
  · exact mem_supertypes_of_reaches hf

end TypeIndex

end Jsni
