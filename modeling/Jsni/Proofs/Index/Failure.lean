import Jsni.Index.Fault
import Jsni.Proofs.Index.Shadowing

/-!
# Look-ups that fail

A walk meets a class before it looks up what is above this class, but an interface only after that.
So the first class that declares a fitting member decides, whatever fails on it or further along,
while a first interface decides only if its own interfaces can be looked up.
-/

namespace Jsni

namespace TypeIndex

/-- The links that `idx` reports are links that `full` reports. Where `idx` fails `full` may not. -/
structure IsPartOf (idx full : TypeIndex) : Prop where
  superclass : ∀ {t s}, idx.superclass t = .ok s → full.superclass t = .ok s
  interfaces : ∀ {t is}, idx.interfaces t = .ok is → full.interfaces t = .ok is

theorem isPartOf_withFaults (idx : TypeIndex) (faults : List Fault) :
    (idx.withFaults faults).IsPartOf idx :=
  ⟨Fault.eq_of_guard_eq_ok, Fault.eq_of_guard_eq_ok⟩

/-- The look-ups of the links of a type succeed. -/
structure HasLinks (idx : TypeIndex) (t : JavaType) : Prop where
  superclass : ∃ s, idx.superclass t = .ok s
  interfaces : ∃ is, idx.interfaces t = .ok is

variable {idx full : TypeIndex} {seen : List String} {t u : JavaType}
  {queue before after : List JavaType}

theorem IsPartOf.superclass_eq (hpart : idx.IsPartOf full) (ht : idx.HasLinks t) :
    idx.superclass t = full.superclass t := by
  obtain ⟨s, hs⟩ := ht.superclass
  rw [hs, hpart.superclass hs]

theorem IsPartOf.interfaces_eq (hpart : idx.IsPartOf full) (ht : idx.HasLinks t) :
    idx.interfaces t = full.interfaces t := by
  obtain ⟨is, his⟩ := ht.interfaces
  rw [his, hpart.interfaces his]

/-! ## Classes -/

theorem superclassChain_split
    (hlinks : ∀ v ∈ t :: before, idx.superclass v = full.superclass v)
    (hsplit : (full.superclassChain seen t).types = before ++ u :: after) :
    ∃ after', (idx.superclassChain seen t).types = before ++ u :: after' := by
  fun_induction superclassChain full seen t generalizing before with
  | case1 => simp [Walk.failed] at hsplit
  | case2 => simp [Walk.ended] at hsplit
  | case3 => simp [Walk.ended] at hsplit
  | case4 seen t s heq hs ih =>
    rw [superclassChain_of_new ((hlinks t List.mem_cons_self).trans heq) hs]
    cases before with
    | nil =>
      obtain ⟨rfl, -⟩ := List.cons.inj hsplit
      exact ⟨_, rfl⟩
    | cons v before =>
      obtain ⟨rfl, hrest⟩ := List.cons.inj hsplit
      obtain ⟨after', hafter⟩ := ih (fun v hv => hlinks v (List.mem_cons_of_mem _ hv)) hrest
      exact ⟨after', congrArg (s :: ·) hafter⟩

theorem classes_split (hlinks : ∀ v ∈ before, idx.superclass v = full.superclass v)
    (hsplit : full.classes t = before ++ u :: after) :
    ∃ after', idx.classes t = before ++ u :: after' := by
  cases before with
  | nil =>
    obtain ⟨rfl, -⟩ := List.cons.inj hsplit
    exact ⟨_, rfl⟩
  | cons v before =>
    obtain ⟨rfl, hchain⟩ := List.cons.inj hsplit
    obtain ⟨after', hafter⟩ := superclassChain_split hlinks hchain
    exact ⟨after', congrArg (t :: ·) hafter⟩

theorem exists_classes_append (idx : TypeIndex) (t : JavaType) :
    ∃ rest, t :: (idx.supertypes t).types = idx.classes t ++ rest := by
  rw [supertypes_eq_andThen]
  unfold Walk.andThen
  split
  · exact ⟨[], (List.append_nil _).symm⟩
  · exact ⟨_, rfl⟩

/-! ## Interfaces -/

/-- The closure works its queue off up to the turn of an interface, about which it knows nothing
until then. -/
theorem interfaceClosure_turn (hlinks : ∀ v ∈ before, idx.interfaces v = full.interfaces v)
    (hsplit : (full.interfaceClosure seen queue).types = before ++ u :: after) :
    ∃ seen' queue', idx.interfaceClosure seen queue
      = (Walk.mk before none).andThen (idx.interfaceClosure seen' (u :: queue')) := by
  fun_induction interfaceClosure full seen queue generalizing before with
  | case1 => simp [Walk.ended] at hsplit
  | case2 => simp [Walk.failed] at hsplit
  | @case3 seen i queue is heq new ih =>
    cases before with
    | nil =>
      obtain ⟨rfl, -⟩ := List.cons.inj hsplit
      exact ⟨seen, queue, rfl⟩
    | cons v before =>
      obtain ⟨rfl, hrest⟩ := List.cons.inj hsplit
      obtain ⟨seen', queue', hturn⟩ :=
        ih (fun v hv => hlinks v (List.mem_cons_of_mem _ hv)) hrest
      refine ⟨seen', queue', ?_⟩
      -- What an interface that is passed adds to the queue is the same for both indexes.
      rw [interfaceClosure_cons ((hlinks i List.mem_cons_self).trans heq)]
      exact congrArg (Walk.cons i) hturn

theorem interfaceWalk_turn {ts : List JavaType}
    (hlinks : ∀ v ∈ ts ++ before, idx.interfaces v = full.interfaces v)
    (hsplit : (full.interfaceWalk ts).types = before ++ u :: after) :
    ∃ seen queue, idx.interfaceWalk ts
      = (Walk.mk before none).andThen (idx.interfaceClosure seen (u :: queue)) := by
  have hdirect : idx.directInterfaces (ts.map (·.name)) ts
      = full.directInterfaces (ts.map (·.name)) ts :=
    directInterfaces_congr fun v hv => hlinks v (List.mem_append_left _ hv)
  unfold interfaceWalk at hsplit ⊢
  simp only [hdirect]
  cases hqueue : full.directInterfaces (ts.map (·.name)) ts with
  | error e => simp [hqueue, Walk.failed] at hsplit
  | ok queue =>
    simp only [hqueue] at hsplit
    exact interfaceClosure_turn (fun v hv => hlinks v (List.mem_append_right _ hv)) hsplit

/-! ## Walks -/

/-- A walk meets a type among the classes of its start or, once these are through, among the
interfaces above them. -/
theorem supertypes_split (hsplit : t :: (full.supertypes t).types = before ++ u :: after) :
    (u ∈ full.classes t ∧ ∃ after', full.classes t = before ++ u :: after')
    ∨ (u ∉ full.classes t ∧ (full.superclassChain [t.name] t).failure = none ∧
      ∃ passed, before = full.classes t ++ passed ∧
        (full.interfaceWalk (full.classes t)).types = passed ++ u :: after) := by
  have hclass : ∀ {after'}, full.classes t = before ++ u :: after' → u ∈ full.classes t := by
    intro after' hclasses
    rw [hclasses]
    exact List.mem_append_right _ List.mem_cons_self
  cases hfailure : (full.superclassChain [t.name] t).failure with
  | some e =>
    -- The walk is over with the classes.
    have hwalk : t :: (full.supertypes t).types = full.classes t := by
      rw [supertypes_eq_andThen, Walk.andThen, hfailure]
      rfl
    exact .inl ⟨hclass (hwalk.symm.trans hsplit), after, hwalk.symm.trans hsplit⟩
  | none =>
    have hinterface : u ∈ (full.interfaceWalk (full.classes t)).types → u ∉ full.classes t :=
      fun hu hmem => (full.areNew_interfaceWalk (full.classes t)).notMem u hu
        (List.mem_map_of_mem hmem)
    rw [cons_supertypes_types hfailure, List.append_eq_append_iff] at hsplit
    obtain ⟨passed, hbefore, hrest⟩ | ⟨rest, hclasses, hrest⟩ := hsplit
    · refine .inr ⟨hinterface ?_, rfl, passed, hbefore, hrest⟩
      rw [hrest]
      exact List.mem_append_right _ List.mem_cons_self
    · cases rest with
      | nil =>
        -- The type comes right after the classes.
        refine .inr ⟨hinterface ?_, rfl, [], ?_, hrest.symm⟩
        · rw [show (full.interfaceWalk (full.classes t)).types = u :: after from hrest.symm]
          exact List.mem_cons_self
        · rw [hclasses, List.append_nil, List.append_nil]
      | cons v rest =>
        obtain ⟨rfl, -⟩ := List.cons.inj hrest
        exact .inl ⟨hclass hclasses, rest, hclasses⟩

theorem IsPartOf.supertypes_of_class (hpart : idx.IsPartOf full)
    (hlinks : ∀ v ∈ before, idx.HasLinks v) (hclasses : full.classes t = before ++ u :: after) :
    ∃ after', t :: (idx.supertypes t).types = before ++ u :: after' := by
  obtain ⟨more, hmore⟩ := classes_split (fun v hv => hpart.superclass_eq (hlinks v hv)) hclasses
  obtain ⟨rest, hrest⟩ := idx.exists_classes_append t
  refine ⟨more ++ rest, ?_⟩
  rw [hrest, hmore, List.append_assoc, List.cons_append]

theorem IsPartOf.supertypes_turn {passed : List JavaType} (hpart : idx.IsPartOf full)
    (hlinks : ∀ v ∈ full.classes t ++ passed, idx.HasLinks v)
    (hended : (full.superclassChain [t.name] t).failure = none)
    (hsplit : (full.interfaceWalk (full.classes t)).types = passed ++ u :: after) :
    ∃ seen queue, idx.supertypes t
      = (Walk.mk ((full.superclassChain [t.name] t).types ++ passed) none).andThen
          (idx.interfaceClosure seen (u :: queue)) := by
  have hchain : idx.superclassChain [t.name] t = full.superclassChain [t.name] t :=
    superclassChain_congr fun v hv => hpart.superclass_eq (hlinks v (List.mem_append_left _ hv))
  have hclasses : idx.classes t = full.classes t :=
    congrArg (fun chain : Walk => t :: chain.types) hchain
  -- The classes are all passed, so both walks look for the interfaces above the same ones.
  obtain ⟨seen, queue, hturn⟩ :=
    interfaceWalk_turn (fun v hv => hpart.interfaces_eq (hlinks v hv)) hsplit
  refine ⟨seen, queue, ?_⟩
  rw [supertypes_eq_andThen, hclasses, hchain, hturn]
  simp [Walk.andThen, hended]

/-! ## Decisions -/

section Decisions

variable {decide : JavaType → Except IndexError (Option Outcome)} {o : Outcome} {e : IndexError}

theorem firstDecided_append (hbefore : ∀ v ∈ before, decide v = .ok none) (rest : List JavaType) :
    firstDecided decide (before ++ rest) = firstDecided decide rest := by
  induction before with
  | nil => rfl
  | cons v before ih =>
    rw [List.cons_append, firstDecided, hbefore v List.mem_cons_self]
    exact ih fun v hv => hbefore v (List.mem_cons_of_mem _ hv)

theorem decideAlong_of_decided (hwalk : t :: (idx.supertypes t).types = before ++ u :: after)
    (hbefore : ∀ v ∈ before, decide v = .ok none) (hu : decide u = .ok (some o)) :
    idx.decideAlong decide t = .ok (some o) := by
  have hfirst : firstDecided decide (t :: (idx.supertypes t).types) = .ok (some o) := by
    rw [hwalk, firstDecided_append hbefore, firstDecided, hu]
  unfold decideAlong
  simp only [hfirst]
  rfl

theorem decideAlong_of_cut (hwalk : t :: (idx.supertypes t).types = before)
    (hfailure : (idx.supertypes t).failure = some e)
    (hbefore : ∀ v ∈ before, decide v = .ok none) : idx.decideAlong decide t = .error e := by
  have hnone : firstDecided decide (t :: (idx.supertypes t).types) = .ok none := by
    rw [hwalk, ← List.append_nil before, firstDecided_append hbefore]
    rfl
  unfold decideAlong
  simp only [hnone, hfailure]
  rfl

end Decisions

/-- `u` is the first type of the walk through `full` of which `idx` reports members of some sort.
Up to it no look-up of `idx` has failed, though those of the links of `u` itself may. -/
structure IsFirstHit (idx full : TypeIndex) (members : JavaType → Except IndexError (List α))
    (t u : JavaType) (hits : List α) : Prop where
  split : ∃ before after, t :: (full.supertypes t).types = before ++ u :: after ∧
    ∀ v ∈ before, idx.HasLinks v ∧ members v = .ok []
  found : members u = .ok hits
  nonempty : hits ≠ []

/-- Whether a first hit decides is up to the turn of its type: a class has it at once, an interface
when its own interfaces are known. -/
theorem IsFirstHit.decideAlong {members : JavaType → Except IndexError (List α)} {hits : List α}
    {decide : JavaType → Except IndexError (Option Outcome)} {outcome? : List α → Option Outcome}
    {o : Outcome} (hfirst : idx.IsFirstHit full members t u hits) (hpart : idx.IsPartOf full)
    (hdecide : ∀ v, decide v = (members v).map outcome?) (hnil : outcome? [] = none)
    (ho : outcome? hits = some o) :
    (u ∈ full.classes t ∨ (∃ is, idx.interfaces u = .ok is) →
      idx.decideAlong decide t = .ok (some o))
    ∧ (u ∉ full.classes t → ∀ e, idx.interfaces u = .error e →
      idx.decideAlong decide t = .error e) := by
  obtain ⟨before, after, hsplit, hbefore⟩ := hfirst.split
  have hlinks : ∀ v ∈ before, idx.HasLinks v := fun v hv => (hbefore v hv).1
  have hnone : ∀ v ∈ before, decide v = .ok none := by
    intro v hv
    rw [hdecide, (hbefore v hv).2]
    exact congrArg Except.ok hnil
  have hu : decide u = .ok (some o) := by
    rw [hdecide, hfirst.found]
    exact congrArg Except.ok ho
  obtain ⟨hclass, more, hclasses⟩ | ⟨hclass, hended, passed, rfl, hrest⟩ := supertypes_split hsplit
  · obtain ⟨after', hwalk⟩ := hpart.supertypes_of_class hlinks hclasses
    exact ⟨fun _ => decideAlong_of_decided hwalk hnone hu, fun hnot => absurd hclass hnot⟩
  · obtain ⟨seen, queue, hturn⟩ := hpart.supertypes_turn hlinks hended hrest
    constructor
    · rintro (hmem | ⟨is, his⟩)
      · exact absurd hmem hclass
      · -- With its interfaces known the type is met, whatever the rest of the queue comes to.
        have hwalk : ∃ after', t :: (idx.supertypes t).types
            = (full.classes t ++ passed) ++ u :: after' := by
          rw [hturn, interfaceClosure_cons his]
          exact ⟨_, rfl⟩
        obtain ⟨after', hwalk⟩ := hwalk
        exact decideAlong_of_decided hwalk hnone hu
    · -- The walk is over after the types before, none of which decides.
      intro _ e he
      rw [interfaceClosure_of_error he] at hturn
      refine decideAlong_of_cut ?_ ?_ hnone
      · rw [hturn]
        exact congrArg (t :: ·) (List.append_nil _)
      · rw [hturn]
        rfl

/-- The first type of a walk that declares members that fit decides a look-up if it is the start or
a superclass, whatever look-ups of its links or of later types fail. An interface that is met after
these decides as long as its own interfaces can be looked up, and else their failure is all that
comes of it. -/
theorem find_of_isFirstHit (hpart : idx.IsPartOf full) (t : JavaType) (name : String) :
    (∀ signature u hits, idx.IsFirstHit full (idx.overloads name signature) t u hits →
      ∃ o, (∀ m, hits = [m] → o = .resolvedMethod t m) ∧
        (2 ≤ hits.length → o = .ambiguous t hits) ∧
        (u ∈ full.classes t ∨ (∃ is, idx.interfaces u = .ok is) →
          idx.findMethod t name signature = .ok o) ∧
        (u ∉ full.classes t → ∀ e, idx.interfaces u = .error e →
          idx.findMethod t name signature = .error e))
    ∧ ∀ u f more, idx.IsFirstHit full (idx.fields · name) t u (f :: more) →
      (u ∈ full.classes t ∨ (∃ is, idx.interfaces u = .ok is) →
        idx.findField t name = .ok (.resolvedField t f)) ∧
      (u ∉ full.classes t → ∀ e, idx.interfaces u = .error e →
        idx.findField t name = .error e) := by
  constructor
  · intro signature u hits hfirst
    obtain ⟨o, ho, hone, hmany⟩ := Outcome.exists_ofOverloads? hfirst.nonempty
    obtain ⟨hdecided, hcut⟩ :=
      hfirst.decideAlong hpart (idx.matchMethods_eq_map t name signature) rfl ho
    refine ⟨o, hone, hmany, ?_, ?_⟩
    · intro hturn
      unfold findMethod
      rw [hdecided hturn]
      rfl
    · intro hclass e he
      unfold findMethod
      rw [hcut hclass e he]
      rfl
  · intro u f more hfirst
    obtain ⟨hdecided, hcut⟩ := hfirst.decideAlong hpart (idx.matchFields_eq_map t name) rfl rfl
    constructor
    · intro hturn
      unfold findField
      rw [hdecided hturn]
      rfl
    · intro hclass e he
      unfold findField
      rw [hcut hclass e he]
      rfl

/-- The class `A` decides though no look-up of its links succeeds, the interface `I` does not decide
since one of its links fails. -/
theorem find_of_isFirstHit_shadowed :
    let s := StaticIndex.shadowedInterface.apply (.addMethod "I" "n" [])
    let c : JavaType := ⟨"C", .classKind⟩
    let a : JavaType := ⟨"A", .classKind⟩
    let i : JavaType := ⟨"I", .interfaceKind⟩
    let aboveA := s.toIndex.withFaults
      [⟨.superclass, "A", .stale "A"⟩, ⟨.interfaces, "A", .stale "A"⟩, ⟨.fields, "I", .stale "I"⟩]
    let aboveI := s.toIndex.withFaults [⟨.interfaces, "I", .stale "I"⟩]
    aboveA.IsPartOf s.toIndex ∧ aboveI.IsPartOf s.toIndex
      ∧ aboveA.IsFirstHit s.toIndex (aboveA.fields · "x") c a [⟨"x", "A", .primitive .long⟩]
      ∧ a ∈ s.toIndex.classes c
      ∧ aboveI.IsFirstHit s.toIndex (aboveI.overloads "n" "") c i [⟨"n", "I", []⟩]
      ∧ i ∉ s.toIndex.classes c
      ∧ aboveA.findField c "x" = .ok (.resolvedField c ⟨"x", "A", .primitive .long⟩)
      ∧ aboveI.findMethod c "n" "" = .error (.stale "I") := by
  intro s c a i aboveA aboveI
  have hI : StaticIndex.shadowedInterface.find? "I"
      = some ⟨.interfaceKind, none, [], [⟨"x", .primitive .int⟩], [⟨"m", [.primitive .int]⟩], []⟩ :=
    rfl
  have hheaders : StaticIndex.shadowedInterface.SameHeaders s :=
    StaticIndex.sameHeaders_apply (e := .addMethod "I" "n" []) hI rfl
  have horder : c :: (s.toIndex.supertypes c).types = [c, a, i] :=
    (hheaders.fieldOrder_eq c).trans StaticIndex.fieldOrder_shadowedInterface
  have hclasses : s.toIndex.classes c = [c, a] := by
    have hC : s.superclass? "C" = some a := rfl
    have hA : s.superclass? "A" = none := rfl
    rw [classes, superclassChain_of_new (congrArg Except.ok hC) (by decide),
      superclassChain_of_none (congrArg Except.ok hA)]
    rfl
  have ha : a ∈ s.toIndex.classes c := by simp [hclasses]
  have hi : i ∉ s.toIndex.classes c := by
    rw [hclasses]
    decide
  have hfields : s.fieldsOf "C" "x" = [] ∧ s.fieldsOf "A" "x" = [⟨"x", "A", .primitive .long⟩] := by
    decide
  have hmethods : ∀ n ∈ ["C", "A"], (s.methodsOf n "n").filter (·.hasSignature "") = [] := by
    decide
  have hn : (s.methodsOf "I" "n").filter (·.hasSignature "") = [⟨"n", "I", []⟩] := by decide
  have hpartA : aboveA.IsPartOf s.toIndex := isPartOf_withFaults _ _
  have hpartI : aboveI.IsPartOf s.toIndex := isPartOf_withFaults _ _
  have hfirstA : aboveA.IsFirstHit s.toIndex (aboveA.fields · "x") c a
      [⟨"x", "A", .primitive .long⟩] := by
    refine ⟨⟨[c], [i], horder, ?_⟩, congrArg Except.ok hfields.2, by simp⟩
    intro v hv
    obtain rfl := List.mem_singleton.1 hv
    exact ⟨⟨⟨_, rfl⟩, ⟨_, rfl⟩⟩, congrArg Except.ok hfields.1⟩
  have hfirstI : aboveI.IsFirstHit s.toIndex (aboveI.overloads "n" "") c i
      [⟨"n", "I", []⟩] := by
    refine ⟨⟨[c, a], [], horder, ?_⟩, congrArg Except.ok hn, by simp⟩
    intro v hv
    rcases List.mem_cons.1 hv with rfl | hv
    · exact ⟨⟨⟨_, rfl⟩, ⟨_, rfl⟩⟩, congrArg Except.ok (hmethods "C" (by simp))⟩
    · obtain rfl := List.mem_singleton.1 hv
      exact ⟨⟨⟨_, rfl⟩, ⟨_, rfl⟩⟩, congrArg Except.ok (hmethods "A" (by simp))⟩
  have hfield := ((find_of_isFirstHit hpartA c "x").2 a _ _ hfirstA).1 (.inl ha)
  obtain ⟨-, -, -, -, hcut⟩ := (find_of_isFirstHit hpartI c "n").1 "" i _ hfirstI
  exact ⟨hpartA, hpartI, hfirstA, ha, hfirstI, hi, hfield, hcut hi _ rfl⟩

/-- A class that inherits its only method from an interface. -/
def implementedInterface : StaticIndex :=
  .ofEntries [
    ⟨"I", { kind := .interfaceKind, methods := [⟨"m", []⟩] }⟩, ⟨"C", { interfaces := ["I"] }⟩]

theorem superclassChain_implementedInterface :
    implementedInterface.toIndex.superclassChain ["C"] ⟨"C", .classKind⟩ = .ended := by
  have hsuper : implementedInterface.superclass? "C" = none := rfl
  exact superclassChain_of_none (congrArg Except.ok hsuper)

theorem supertypes_implementedInterface :
    implementedInterface.toIndex.supertypes ⟨"C", .classKind⟩
      = ⟨[⟨"I", .interfaceKind⟩], none⟩ := by
  have hC : implementedInterface.hierarchy.interfaces "C" = [⟨"I", .interfaceKind⟩] := rfl
  have hI : implementedInterface.interfacesOf "I" = [] := by decide
  have hqueue : implementedInterface.toIndex.interfaces ⟨"I", .interfaceKind⟩ = .ok [] :=
    congrArg Except.ok hI
  rw [supertypes_eq implementedInterface.follows]
  simp [superclassChain_implementedInterface, hC, fresh, interfaceClosure_cons hqueue,
    interfaceClosure_nil, Walk.cons, Walk.ended]

/-- The method is found in `I`, of which alone a look-up fails, but not for `C`: the walk fails on
the interfaces that `I` extends before it meets `I` itself. -/
theorem findMethod_staleInterface :
    let full := implementedInterface.toIndex
    let idx := full.withFaults [⟨.interfaces, "I", .stale "I"⟩]
    let c : JavaType := ⟨"C", .classKind⟩
    let i : JavaType := ⟨"I", .interfaceKind⟩
    idx.IsPartOf full
      ∧ idx.IsFirstHit full (idx.overloads "m" "") c i [⟨"m", "I", []⟩]
      ∧ idx.findMethod i "m" "" = .ok (.resolvedMethod i ⟨"m", "I", []⟩)
      ∧ idx.findMethod c "m" "" = .error (.stale "I") := by
  intro full idx c i
  have hpart : idx.IsPartOf full := isPartOf_withFaults _ _
  have hnone : (implementedInterface.methodsOf "C" "m").filter (·.hasSignature "") = [] := by
    decide
  have hm : (implementedInterface.methodsOf "I" "m").filter (·.hasSignature "")
      = [⟨"m", "I", []⟩] := by
    decide
  have hfirst : idx.IsFirstHit full (idx.overloads "m" "") c i [⟨"m", "I", []⟩] := by
    have horder : c :: (full.supertypes c).types = [c] ++ i :: [] := by
      rw [supertypes_implementedInterface]
      rfl
    refine ⟨⟨[c], [], horder, ?_⟩, congrArg Except.ok hm, by simp⟩
    intro v hv
    obtain rfl := List.mem_singleton.1 hv
    exact ⟨⟨⟨_, rfl⟩, ⟨_, rfl⟩⟩, congrArg Except.ok hnone⟩
  have hself : idx.IsFirstHit full (idx.overloads "m" "") i i [⟨"m", "I", []⟩] :=
    ⟨⟨[], _, rfl, by simp⟩, congrArg Except.ok hm, by simp⟩
  have hi : i ∉ full.classes c := by
    rw [classes, superclassChain_implementedInterface]
    decide
  have hdecided := (hself.decideAlong hpart (idx.matchMethods_eq_map i "m" "") rfl rfl).1
    (.inl List.mem_cons_self)
  have hcut := (hfirst.decideAlong hpart (idx.matchMethods_eq_map c "m" "") rfl rfl).2 hi _ rfl
  refine ⟨hpart, hfirst, ?_, ?_⟩
  · rw [findMethod, hdecided]
    rfl
  · rw [findMethod, hcut]
    rfl

end TypeIndex

end Jsni
