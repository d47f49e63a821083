import Jsni.Index.Basic

/-!
# Supertype walks

The supertypes of a type, each once: first its superclasses from near to far, then the interfaces
of all of these in breadth-first order. A failing look-up ends the walk, and the walk says so.
Walks end because every step but the last few sees a name of the index for the first time.
-/

namespace Jsni

/-- Types in the order walked, and the failure that cut the walk short. -/
structure Walk where
  types : List JavaType
  failure : Option IndexError
deriving DecidableEq, Repr

namespace Walk

def ended : Walk :=
  ⟨[], none⟩

def failed (e : IndexError) : Walk :=
  ⟨[], some e⟩

def cons (t : JavaType) (w : Walk) : Walk :=
  ⟨t :: w.types, w.failure⟩

/-- Go on with another walk unless this one failed. -/
def andThen (w : Walk) (next : Walk) : Walk :=
  match w.failure with
  | some _ => w
  | none   => ⟨w.types ++ next.types, next.failure⟩

/-- The walk as it is met step by step: its types, then its failure. -/
def steps (w : Walk) : List (Except IndexError JavaType) :=
  w.types.map .ok ++ w.failure.toList.map .error

end Walk

namespace TypeIndex

/-! ## Names not seen yet -/

/-- How many of the index's names are not among `seen`. -/
def unseen (idx : TypeIndex) (seen : List String) : Nat :=
  (idx.typeNames.filter (· ∉ seen)).length

theorem unseen_append_le (idx : TypeIndex) (seen more : List String) :
    idx.unseen (more ++ seen) ≤ idx.unseen seen := by
  unfold unseen
  refine List.Sublist.length_le ?_
  rw [show (idx.typeNames.filter (· ∉ more ++ seen))
      = (idx.typeNames.filter (· ∉ seen)).filter (· ∉ more) by
    rw [List.filter_filter]
    exact List.filter_congr fun name _ => by simp]
  exact List.filter_sublist

theorem unseen_cons_lt {idx : TypeIndex} {seen : List String} {name : String}
    (hknown : name ∈ idx.typeNames) (hnew : name ∉ seen) :
    idx.unseen (name :: seen) < idx.unseen seen := by
  unfold unseen
  rw [show (idx.typeNames.filter (· ∉ name :: seen))
      = (idx.typeNames.filter (· ∉ seen)).filter (· ≠ name) by
    rw [List.filter_filter]
    exact List.filter_congr fun n _ => by simp]
  have hmem : name ∈ idx.typeNames.filter (· ∉ seen) := by simp [hknown, hnew]
  exact List.length_filter_lt_length_iff_exists.2 ⟨name, hmem, by simp⟩

/-- The types of a list whose names are new, each name once. -/
def fresh (seen : List String) : List JavaType → List JavaType
  | []      => []
  | t :: ts =>
    if t.name ∈ seen then fresh seen ts
    else t :: fresh (t.name :: seen) ts

theorem mem_of_mem_fresh {seen : List String} {ts : List JavaType} {t : JavaType}
    (h : t ∈ fresh seen ts) : t ∈ ts := by
  fun_induction fresh seen ts with
  | case1 => simp at h
  | case2 seen u us hseen ih => exact List.mem_cons_of_mem _ (ih h)
  | case3 seen u us hseen ih =>
    cases h with
    | head => simp
    | tail _ h => exact List.mem_cons_of_mem _ (ih h)

theorem name_notMem_of_mem_fresh {seen : List String} {ts : List JavaType} {t : JavaType}
    (h : t ∈ fresh seen ts) : t.name ∉ seen := by
  fun_induction fresh seen ts with
  | case1 => simp at h
  | case2 seen u us hseen ih => exact ih h
  | case3 seen u us hseen ih =>
    cases h with
    | head => exact hseen
    | tail _ h => exact fun hmem => ih h (List.mem_cons_of_mem _ hmem)

theorem unseen_fresh_lt {idx : TypeIndex} {seen : List String} {ts : List JavaType}
    (hknown : ∀ t ∈ ts, t.name ∈ idx.typeNames) (hne : fresh seen ts ≠ []) :
    idx.unseen ((fresh seen ts).map (·.name) ++ seen) < idx.unseen seen := by
  obtain ⟨t, us, heq⟩ := List.exists_cons_of_ne_nil hne
  have ht : t ∈ fresh seen ts := heq ▸ List.mem_cons_self
  have hlt := unseen_cons_lt (hknown t (mem_of_mem_fresh ht)) (name_notMem_of_mem_fresh ht)
  rw [heq]
  refine Nat.lt_of_le_of_lt ?_ hlt
  refine Nat.le_trans (Nat.le_of_eq ?_)
    (unseen_append_le idx (t.name :: seen) (us.map (·.name)))
  unfold unseen
  congr 1
  exact List.filter_congr fun n _ => by simp [or_left_comm]

/-! ## The walk -/

/-- The superclasses of a type, from near to far, up to the first name seen before. -/
def superclassChain (idx : TypeIndex) (seen : List String) (t : JavaType) : Walk :=
  match _h : idx.superclass t with
  | .error e     => .failed e
  | .ok none     => .ended
  | .ok (some s) =>
    if _hs : s.name ∈ seen then .ended
    else (idx.superclassChain (s.name :: seen) s).cons s
termination_by idx.unseen seen
decreasing_by exact unseen_cons_lt (idx.superclass_known _h) _hs

/-- The interfaces that several types name directly, in order, each new name once. -/
def directInterfaces (idx : TypeIndex) (seen : List String) :
    List JavaType → Except IndexError (List JavaType)
  | []      => .ok []
  | t :: ts =>
    match idx.interfaces t with
    | .error e => .error e
    | .ok is   =>
      let new := fresh seen is
      (idx.directInterfaces (new.map (·.name) ++ seen) ts).map (new ++ ·)

/-- The interfaces of a queue and all they extend. An interface's own interfaces are looked up, and
join the end of the queue, before it is walked itself. -/
def interfaceClosure (idx : TypeIndex) (seen : List String) : List JavaType → Walk
  | []         => .ended
  | i :: queue =>
    match _h : idx.interfaces i with
    | .error e => .failed e
    | .ok is   =>
      let new := fresh seen is
      (idx.interfaceClosure (new.map (·.name) ++ seen) (queue ++ new)).cons i
termination_by queue => (idx.unseen seen, queue.length)
decreasing_by
  by_cases hnew : fresh seen is = []
  · rw [hnew]
    simpa using Prod.Lex.right _ (Nat.lt_succ_self _)
  · exact Prod.Lex.left _ _ (unseen_fresh_lt (idx.interfaces_known _h) hnew)

/-- All supertypes of a type. -/
def supertypes (idx : TypeIndex) (t : JavaType) : Walk :=
  let chain := idx.superclassChain [t.name] t
  let seen  := (t :: chain.types).map (·.name)
  chain.andThen <|
    match idx.directInterfaces seen (t :: chain.types) with
    | .error e  => .failed e
    | .ok queue => idx.interfaceClosure (queue.map (·.name) ++ seen) queue

end TypeIndex

end Jsni
