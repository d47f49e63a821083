import Mathlib.Logic.Function.Iterate
import Jsni.Proofs.Index.Supertypes

/-!
# Breadth-first order

The interfaces above several types come in levels: those that the types name, those that these
extend, and so on, without end where the hierarchy has a cycle. The queue of a walk goes through the
levels one after the other and leaves out every name it has met, so that no interface comes before
one that is fewer links away.
-/

namespace Jsni

/-! ## Levels -/

namespace Hierarchy

/-- The interfaces that several types name directly, in order and with repetitions. -/
def direct (h : Hierarchy) (ts : List JavaType) : List JavaType :=
  ts.flatMap fun t => h.interfaces t.name

/-- The interfaces that so many links lead to from several types, once for every way there. -/
def level (h : Hierarchy) (ts : List JavaType) (k : Nat) : List JavaType :=
  h.direct^[k] ts

/-- The first levels above several types, one after the other. -/
def levels (h : Hierarchy) (ts : List JavaType) (n : Nat) : List JavaType :=
  (List.range n).flatMap fun k => h.level ts (k + 1)

/-- The first levels above several types where each leaves out the names met before, and only the
types that are left lead on to the next. -/
def newLevels (h : Hierarchy) (seen : List String) (ts : List JavaType) : Nat → List JavaType
  | 0     => []
  | n + 1 =>
    let new := TypeIndex.fresh seen (h.direct ts)
    new ++ h.newLevels (new.map (·.name) ++ seen) new n

/-- So many interface links lead from one name to another. -/
inductive ImplementsIn (h : Hierarchy) (a : String) : Nat → String → Prop where
  | refl : ImplementsIn h a 0 a
  | tail {k : Nat} {b c : String} :
    ImplementsIn h a k b → h.Implements b c → ImplementsIn h a (k + 1) c

/-- A name is at most so many interface links away from several types. -/
def IsWithin (h : Hierarchy) (ts : List JavaType) (k : Nat) (n : String) : Prop :=
  ∃ j ≤ k, ∃ t ∈ ts, h.ImplementsIn t.name j n

/-- The superclass of a type, the superclass of that one, and so on up to the first type without
superclass or whose superclass would be a repetition. -/
structure IsSuperclassChain (h : Hierarchy) (t : JavaType) (chain : List JavaType) : Prop where
  linked : (t :: chain).IsChain fun u v => h.superclass? u.name = some v
  nodup : ((t :: chain).map (·.name)).Nodup
  stops : ∀ u ∈ (t :: chain).getLast?, ∀ v, h.superclass? u.name = some v →
    v.name ∈ (t :: chain).map (·.name)

/-- The interfaces above several types in breadth-first order. From some number of levels on, all
levels up to there give them, be repetitions dropped from the levels in the end or on the way. -/
structure IsBreadthFirst (h : Hierarchy) (ts interfaces : List JavaType) : Prop where
  eq_fresh_levels : ∃ m, ∀ n ≥ m, interfaces = TypeIndex.fresh (ts.map (·.name)) (h.levels ts n)
  eq_newLevels : ∃ m, ∀ n ≥ m, interfaces = h.newLevels (ts.map (·.name)) ts n
  nearer_first : ∀ k, interfaces.Pairwise fun i j =>
    h.IsWithin ts k j.name → h.IsWithin ts k i.name

variable {h : Hierarchy}

theorem levels_succ (h : Hierarchy) (ts : List JavaType) (n : Nat) :
    h.levels ts (n + 1) = h.direct ts ++ h.levels (h.direct ts) n := by
  unfold levels
  rw [List.range_succ_eq_map, List.flatMap_cons, List.flatMap_map]
  rfl

theorem levels_add (h : Hierarchy) (ts : List JavaType) (k n : Nat) :
    ∃ more, h.levels ts (k + n) = h.levels ts k ++ more := by
  unfold levels
  rw [List.range_add, List.flatMap_append]
  exact ⟨_, rfl⟩

theorem mem_direct_iff {ts : List JavaType} {n : String} :
    n ∈ (h.direct ts).map (·.name) ↔ ∃ t ∈ ts, h.Implements t.name n := by
  simp only [direct, List.mem_map, List.mem_flatMap, Implements]
  constructor
  · rintro ⟨u, ⟨t, ht, hu⟩, hn⟩
    exact ⟨t, ht, u, hu, hn⟩
  · rintro ⟨t, ht, u, hu, hn⟩
    exact ⟨u, ⟨t, ht, hu⟩, hn⟩

theorem mem_level_iff {ts : List JavaType} {k : Nat} {n : String} :
    n ∈ (h.level ts k).map (·.name) ↔ ∃ t ∈ ts, h.ImplementsIn t.name k n := by
  induction k generalizing n with
  | zero =>
    simp only [level, Function.iterate_zero, id, List.mem_map]
    constructor
    · rintro ⟨t, ht, rfl⟩
      exact ⟨t, ht, .refl⟩
    · rintro ⟨t, ht, hn⟩
      cases hn
      exact ⟨t, ht, rfl⟩
  | succ k ih =>
    rw [level, Function.iterate_succ_apply', mem_direct_iff]
    constructor
    · rintro ⟨u, hu, hlink⟩
      obtain ⟨t, ht, hpath⟩ := ih.1 (List.mem_map_of_mem hu)
      exact ⟨t, ht, .tail hpath hlink⟩
    · rintro ⟨t, ht, hn⟩
      cases hn with
      | tail hpath hlink =>
        obtain ⟨u, hu, rfl⟩ := List.mem_map.1 (ih.2 ⟨t, ht, hpath⟩)
        exact ⟨u, hu, hlink⟩

theorem mem_levels_iff {ts : List JavaType} {k : Nat} {n : String} :
    n ∈ (h.levels ts k).map (·.name) ↔ ∃ j < k, ∃ t ∈ ts, h.ImplementsIn t.name (j + 1) n := by
  simp only [levels, List.map_flatMap, List.mem_flatMap, List.mem_range, mem_level_iff]

/-- A name is within some links if it is one of the types themselves or in one of the levels. -/
theorem isWithin_iff {ts : List JavaType} {k : Nat} {n : String} :
    h.IsWithin ts k n ↔ n ∈ ts.map (·.name) ∨ n ∈ (h.levels ts k).map (·.name) := by
  rw [mem_levels_iff]
  constructor
  · rintro ⟨j, hj, t, ht, hn⟩
    cases j with
    | zero =>
      cases hn
      exact .inl (List.mem_map_of_mem ht)
    | succ j => exact .inr ⟨j, hj, t, ht, hn⟩
  · rintro (hn | ⟨j, hj, hn⟩)
    · obtain ⟨t, ht, rfl⟩ := List.mem_map.1 hn
      exact ⟨0, Nat.zero_le k, t, ht, .refl⟩
    · exact ⟨j + 1, hj, hn⟩

end Hierarchy

namespace TypeIndex

open Hierarchy

variable {idx : TypeIndex} {h : Hierarchy}

/-! ## Dropping what was met before -/

theorem fresh_eq_nil {seen : List String} {ts : List JavaType} (hts : ∀ t ∈ ts, t.name ∈ seen) :
    fresh seen ts = [] := by
  apply List.eq_nil_iff_forall_not_mem.2
  intro t ht
  exact name_notMem_of_mem_fresh ht (hts t (mem_of_mem_fresh ht))

/-- The names that a list has in a first part come first, and all of them do. -/
theorem pairwise_fresh_append (seen : List String) (first more : List JavaType) :
    (fresh seen (first ++ more)).Pairwise fun i j =>
      j.name ∈ first.map (·.name) → i.name ∈ first.map (·.name) := by
  have hfirst : ∀ i ∈ fresh seen first, i.name ∈ first.map (·.name) := by
    intro i hi
    exact List.mem_map_of_mem (mem_of_mem_fresh hi)
  rw [fresh_append, List.pairwise_append]
  refine ⟨?_, ?_, ?_⟩
  · exact List.pairwise_of_forall_mem_list fun i hi _ _ _ => hfirst i hi
  · -- No name of the first part is left for the second.
    refine List.pairwise_of_forall_mem_list fun i _ j hj hmem => ?_
    obtain ⟨u, hu, hname⟩ := List.mem_map.1 hmem
    refine absurd ?_ (name_notMem_of_mem_fresh hj)
    rw [← hname]
    exact List.mem_append.2 (mem_seen_or_fresh hu).symm
  · intro i hi _ _ _
    exact hfirst i hi

/-- Types that are dropped lead to no new names where the interfaces of all that was seen before are
met already. -/
theorem fresh_direct_fresh {seen met : List String}
    (hmet : ∀ n ∈ seen, ∀ v ∈ h.interfaces n, v.name ∈ met) (ts : List JavaType) :
    fresh met (h.direct (fresh seen ts)) = fresh met (h.direct ts) := by
  induction ts generalizing seen met with
  | nil => rfl
  | cons t ts ih =>
    have hcons : ∀ us, h.direct (t :: us) = h.interfaces t.name ++ h.direct us := fun us => rfl
    by_cases ht : t.name ∈ seen
    · have hold : fresh met (h.interfaces t.name) = [] := fresh_eq_nil (hmet t.name ht)
      rw [fresh, if_pos ht, ih hmet, hcons, fresh_append, hold]
      rfl
    · rw [fresh, if_neg ht, hcons, hcons, fresh_append, fresh_append]
      congr 1
      apply ih
      intro n hn v hv
      rcases List.mem_cons.1 hn with rfl | hn
      · exact List.mem_append.2 (mem_seen_or_fresh hv).symm
      · exact List.mem_append_right _ (hmet n hn v hv)

theorem newLevels_of_fresh_eq_nil {seen : List String} {ts : List JavaType}
    (hnew : fresh seen (h.direct ts) = []) (n : Nat) : h.newLevels seen ts n = [] := by
  induction n generalizing seen ts with
  | zero => rfl
  | succ n ih =>
    rw [newLevels, hnew]
    exact ih rfl

theorem newLevels_fresh {seen met : List String}
    (hmet : ∀ n ∈ seen, ∀ v ∈ h.interfaces n, v.name ∈ met) (ts : List JavaType) (n : Nat) :
    h.newLevels met (fresh seen ts) n = h.newLevels met ts n := by
  cases n with
  | zero => rfl
  | succ n => rw [newLevels, newLevels, fresh_direct_fresh hmet]

/-- It makes no difference whether names are dropped level by level or from all levels together. -/
theorem newLevels_eq_fresh_levels {seen : List String} {ts : List JavaType}
    (hclosed : ∀ n ∈ seen, ∀ v ∈ h.interfaces n,
      v.name ∈ seen ∨ v.name ∈ (h.direct ts).map (·.name)) (n : Nat) :
    h.newLevels seen ts n = fresh seen (h.levels ts n) := by
  induction n generalizing seen ts with
  | zero => rfl
  | succ n ih =>
    let new := fresh seen (h.direct ts)
    let met := new.map (·.name) ++ seen
    have hmet : ∀ m ∈ seen, ∀ v ∈ h.interfaces m, v.name ∈ met := by
      intro m hm v hv
      rcases hclosed m hm v hv with hold | hnext
      · exact List.mem_append_right _ hold
      · obtain ⟨u, hu, hname⟩ := List.mem_map.1 hnext
        exact hname ▸ List.mem_append.2 (mem_seen_or_fresh hu).symm
    have hrest : h.newLevels met (h.direct ts) n = fresh met (h.levels (h.direct ts) n) := by
      apply ih
      intro m hm v hv
      rcases List.mem_append.1 hm with hm | hm
      · obtain ⟨u, hu, rfl⟩ := List.mem_map.1 hm
        exact .inr (mem_direct_iff.2 ⟨u, mem_of_mem_fresh hu, v, hv, rfl⟩)
      · exact .inl (hmet m hm v hv)
    calc h.newLevels seen ts (n + 1)
        = new ++ h.newLevels met new n := rfl
      _ = new ++ h.newLevels met (h.direct ts) n := by rw [newLevels_fresh hmet]
      _ = new ++ fresh met (h.levels (h.direct ts) n) := by rw [hrest]
      _ = fresh seen (h.levels ts (n + 1)) := by rw [levels_succ, fresh_append]

/-! ## The queue -/

/-- It counts which names were seen, not in which order. -/
theorem interfaceClosure_seen_congr (seen : List String) (queue : List JavaType) :
    ∀ seen', (∀ n, n ∈ seen ↔ n ∈ seen') →
      idx.interfaceClosure seen queue = idx.interfaceClosure seen' queue := by
  fun_induction interfaceClosure idx seen queue with
  | case1 =>
    intro seen' _
    rw [interfaceClosure_nil]
  | case2 seen i queue e heq =>
    intro seen' _
    rw [interfaceClosure_of_error heq]
  | case3 seen i queue is heq new ih =>
    intro seen' hseen
    rw [interfaceClosure_cons heq, ← fresh_congr hseen is]
    apply congrArg
    apply ih
    intro n
    simp [new, hseen n]

/-- The types at the front of a queue are walked in order, and what they name joins its end. -/
theorem interfaceClosure_append (hf : idx.Follows h) (seen : List String)
    (front back : List JavaType) :
    let new := fresh seen (h.direct front)
    (idx.interfaceClosure seen (front ++ back)).types
      = front ++ (idx.interfaceClosure (new.map (·.name) ++ seen) (back ++ new)).types := by
  induction front generalizing seen back with
  | nil => simp [direct, fresh]
  | cons i front ih =>
    let own := fresh seen (h.interfaces i.name)
    let met := own.map (·.name) ++ seen
    let new := fresh met (h.direct front)
    have hnew : fresh seen (h.direct (i :: front)) = own ++ new := fresh_append ..
    have hseen : idx.interfaceClosure ((own ++ new).map (·.name) ++ seen) (back ++ (own ++ new))
        = idx.interfaceClosure (new.map (·.name) ++ met) (back ++ own ++ new) := by
      rw [List.append_assoc]
      apply interfaceClosure_seen_congr
      intro n
      simp only [met, List.map_append, List.mem_append]
      tauto
    have hstep : (idx.interfaceClosure seen (i :: front ++ back)).types
        = i :: (idx.interfaceClosure met (front ++ (back ++ own))).types := by
      rw [List.cons_append, interfaceClosure_cons (hf.interfaces i), List.append_assoc]
      rfl
    simp only [hnew, hseen, hstep, ih met (back ++ own)]
    rfl

theorem Follows.mem_typeNames_of_mem_direct (hf : idx.Follows h) {ts : List JavaType} :
    ∀ v ∈ h.direct ts, v.name ∈ idx.typeNames := by
  intro v hv
  obtain ⟨t, -, hv⟩ := List.mem_flatMap.1 hv
  exact idx.interfaces_known (hf.interfaces t) v hv

/-- The closure takes its interfaces level by level. It needs no more levels than there are names
not seen yet. -/
theorem interfaceClosure_eq_newLevels (hf : idx.Follows h) {seen : List String}
    {ts : List JavaType} {n : Nat} (hn : idx.unseen seen ≤ n) :
    let new := fresh seen (h.direct ts)
    (idx.interfaceClosure (new.map (·.name) ++ seen) new).types = h.newLevels seen ts n := by
  induction n generalizing seen ts with
  | zero =>
    intro new
    have hnil : new = [] := by
      by_contra hne
      have hlt := unseen_fresh_lt hf.mem_typeNames_of_mem_direct hne
      omega
    rw [hnil, interfaceClosure_nil]
    rfl
  | succ n ih =>
    intro new
    by_cases hnil : new = []
    · rw [newLevels_of_fresh_eq_nil hnil, hnil, interfaceClosure_nil]
      rfl
    · let met := new.map (·.name) ++ seen
      let next := fresh met (h.direct new)
      have hlt : idx.unseen met < idx.unseen seen :=
        unseen_fresh_lt hf.mem_typeNames_of_mem_direct hnil
      have hlevel : (idx.interfaceClosure met new).types
          = new ++ (idx.interfaceClosure (next.map (·.name) ++ met) next).types := by
        simpa using interfaceClosure_append hf met new []
      calc (idx.interfaceClosure met new).types
          = new ++ (idx.interfaceClosure (next.map (·.name) ++ met) next).types := hlevel
        _ = new ++ h.newLevels met new n := by rw [ih (by omega)]
        _ = h.newLevels seen ts (n + 1) := rfl

/-! ## The parts of a walk in order -/

theorem isChain_superclassChain (hf : idx.Follows h) (seen : List String) (t : JavaType) :
    (t :: (idx.superclassChain seen t).types).IsChain
      fun u v => h.superclass? u.name = some v := by
  fun_induction superclassChain idx seen t with
  | case1 => exact .singleton _
  | case2 => exact .singleton _
  | case3 => exact .singleton _
  | case4 seen t s heq hs ih =>
    have hlink : h.superclass? t.name = some s := by simpa [hf.superclass] using heq
    exact .cons_cons hlink ih

theorem isSuperclassChain (hf : idx.Follows h) (t : JavaType) :
    h.IsSuperclassChain t (idx.superclassChain [t.name] t).types := by
  have hnew := areNew_superclassChain idx [t.name] t
  refine ⟨isChain_superclassChain hf _ t, (areNew_cons List.not_mem_nil hnew).nodup, ?_⟩
  intro u hu v hv
  have hmem := superclass_mem_superclassChain hf (List.mem_of_getLast? hu) hv
  rw [List.map_cons, List.mem_cons]
  exact hmem.imp_left List.mem_singleton.1

theorem isBreadthFirst_of_forall {ts interfaces : List JavaType} {m : Nat}
    (hinterfaces : ∀ n ≥ m, interfaces = h.newLevels (ts.map (·.name)) ts n) :
    h.IsBreadthFirst ts interfaces := by
  have hlevels : ∀ n ≥ m, interfaces = fresh (ts.map (·.name)) (h.levels ts n) := by
    intro n hn
    rw [hinterfaces n hn]
    apply newLevels_eq_fresh_levels
    intro name hname v hv
    obtain ⟨t, ht, rfl⟩ := List.mem_map.1 hname
    exact .inr (mem_direct_iff.2 ⟨t, ht, v, hv, rfl⟩)
  refine ⟨⟨m, hlevels⟩, ⟨m, hinterfaces⟩, ?_⟩
  intro k
  obtain ⟨more, hmore⟩ := levels_add h ts k m
  -- An interface within `k` links is in the first `k` levels, since it is none of the types.
  have heq : interfaces = fresh (ts.map (·.name)) (h.levels ts k ++ more) := by
    rw [← hmore]
    exact hlevels (k + m) (Nat.le_add_left m k)
  rw [heq]
  refine (pairwise_fresh_append _ _ more).imp_of_mem ?_
  intro i j _ hj hij hwithin
  rcases isWithin_iff.1 hwithin with hown | hlevel
  · exact absurd hown (name_notMem_of_mem_fresh hj)
  · exact isWithin_iff.2 (.inr (hij hlevel))

/-- A walk goes up the superclasses and then through the interfaces above all of these, the nearer
ones first. -/
theorem supertypes_inOrder (hf : idx.Follows h) (t : JavaType) :
    ∃ chain interfaces, idx.supertypes t = ⟨chain ++ interfaces, none⟩ ∧
      h.IsSuperclassChain t chain ∧ h.IsBreadthFirst (t :: chain) interfaces := by
  refine ⟨_, _, supertypes_eq hf t, isSuperclassChain hf t, ?_⟩
  apply isBreadthFirst_of_forall
  intro n hn
  exact interfaceClosure_eq_newLevels hf hn

/-- A class and its superclass, each with an interface. Two ways lead from these to a third one,
from which there are links back. -/
def wovenInterfaces : StaticIndex :=
  StaticIndex.empty.applyAll [
    .addInterface "I" ["L", "J"], .addInterface "J" ["K"],
    .addInterface "K" ["I", "J"], .addInterface "L" ["K"],
    .addClass "A" none, .addSuperinterface "A" "I",
    .addClass "B" (some "A"), .addSuperinterface "B" "J"]

theorem supertypes_inOrder_woven :
    let idx := wovenInterfaces.toIndex
    let t : JavaType := ⟨"B", .classKind⟩
    idx.Follows wovenInterfaces.hierarchy ∧
      (idx.supertypes t).types.map (·.name) = ["A", "J", "I", "K", "L"] ∧
      ∃ chain interfaces, idx.supertypes t = ⟨chain ++ interfaces, none⟩ ∧
        wovenInterfaces.hierarchy.IsSuperclassChain t chain ∧
        wovenInterfaces.hierarchy.IsBreadthFirst (t :: chain) interfaces := by
  intro idx t
  have hf : idx.Follows wovenInterfaces.hierarchy := wovenInterfaces.follows
  have hsuper : wovenInterfaces.superclass? "B" = some ⟨"A", .classKind⟩
      ∧ wovenInterfaces.superclass? "A" = none := ⟨rfl, rfl⟩
  have hchain : (idx.superclassChain ["B"] t).types = [⟨"A", .classKind⟩] := by
    rw [superclassChain_of_new (congrArg Except.ok hsuper.1) (by decide),
      superclassChain_of_none (congrArg Except.ok hsuper.2)]
    rfl
  let named (n : String) : JavaType := ⟨n, .interfaceKind⟩
  have hA : wovenInterfaces.hierarchy.interfaces "A" = [named "I"] := rfl
  have hB : wovenInterfaces.hierarchy.interfaces "B" = [named "J"] := rfl
  have hI : wovenInterfaces.interfacesOf "I" = [named "L", named "J"] := rfl
  have hJ : wovenInterfaces.interfacesOf "J" = [named "K"] := rfl
  have hK : wovenInterfaces.interfacesOf "K" = [named "I", named "J"] := rfl
  have hL : wovenInterfaces.interfacesOf "L" = [named "K"] := rfl
  have hstep : ∀ {n is}, wovenInterfaces.interfacesOf n = is →
      idx.interfaces (named n) = .ok is := congrArg Except.ok
  have hnames : (idx.supertypes t).types.map (·.name) = ["A", "J", "I", "K", "L"] := by
    rw [supertypes_eq hf]
    simp [t, hchain, hA, hB, fresh, interfaceClosure_cons (hstep hI),
      interfaceClosure_cons (hstep hJ), interfaceClosure_cons (hstep hK),
      interfaceClosure_cons (hstep hL), interfaceClosure_nil, Walk.cons, Walk.ended, named]
  exact ⟨hf, hnames, supertypes_inOrder hf t⟩

end TypeIndex

end Jsni
