import Mathlib
import Jsni.Proofs.Index.Lookup
import Jsni.Resolution.Basic

/-!
# Outcomes in a static index

Resolving a reference in a static index always gives an outcome. Which outcome it is follows from
the type that the class name stands for, from the hierarchy above this type and from what the types
of the hierarchy declare.
-/

namespace Jsni

/-! ## What outcomes say -/

namespace Outcome

/-- The outcome is one that references of the kind can have. -/
def FitsKind : Outcome → MemberKind → Prop
  | resolvedMethod ..,      k => k = .method
  | resolvedField ..,       k => k = .field
  | resolvedConstructor .., k => k = .constructor
  | resolvedClass _,        k => k = .classOnly
  | unresolvedMethod _,     k => k = .method ∨ k = .constructor
  | ambiguous .. ,          k => k = .method ∨ k = .constructor
  | unresolvedField _,      k => k = .field
  | unresolvedType,         _ => False
  | ignoredNull,            _ => False

/-- An outcome for a reference to a method or constructor, where `declares` tells which types in
question declare which ones that fit: unresolved if there are none, else the one or the several
that a single type declares. -/
structure ChoosesMethod (o : Outcome) (resolved : JavaType → Method → Outcome) (t : JavaType)
    (declares : String → Method → Prop) : Prop where
  unresolved_iff : o = .unresolvedMethod t ↔ ¬ ∃ n m, declares n m
  found : o ≠ .unresolvedMethod t → ∃ n,
    (∃ m, declares n m ∧ o = resolved t m) ∨
      ∃ ms, 2 ≤ ms.length ∧ (∀ m ∈ ms, declares n m) ∧ o = .ambiguous t ms

/-- The same for a reference to a field, which is never ambiguous. -/
structure ChoosesField (o : Outcome) (t : JavaType) (declares : String → Field → Prop) : Prop where
  unresolved_iff : o = .unresolvedField t ↔ ¬ ∃ n f, declares n f
  found : o ≠ .unresolvedField t → ∃ n f, declares n f ∧ o = .resolvedField t f

variable {resolved : JavaType → Method → Outcome} {t : JavaType}

theorem ChoosesMethod.eq_or {o : Outcome} {declares : String → Method → Prop}
    (h : o.ChoosesMethod resolved t declares) :
    o = .unresolvedMethod t ∨ (∃ m, o = resolved t m) ∨ ∃ ms, o = .ambiguous t ms := by
  by_cases ho : o = .unresolvedMethod t
  · exact .inl ho
  · obtain ⟨n, ⟨m, -, hm⟩ | ⟨ms, -, -, hms⟩⟩ := h.found ho
    · exact .inr (.inl ⟨m, hm⟩)
    · exact .inr (.inr ⟨ms, hms⟩)

theorem ChoosesField.eq_or {o : Outcome} {declares : String → Field → Prop}
    (h : o.ChoosesField t declares) : o = .unresolvedField t ∨ ∃ f, o = .resolvedField t f := by
  by_cases ho : o = .unresolvedField t
  · exact .inl ho
  · obtain ⟨n, f, -, hf⟩ := h.found ho
    exact .inr ⟨f, hf⟩

theorem ofOverloads?_eq_none_iff {ms : List Method} :
    ofOverloads? resolved t ms = none ↔ ms = [] := by
  unfold ofOverloads?
  split <;> simp_all

theorem ofOverloads?_eq_some {ms : List Method} {o : Outcome}
    (ho : ofOverloads? resolved t ms = some o) :
    (∃ m, ms = [m] ∧ o = resolved t m) ∨ 2 ≤ ms.length ∧ o = .ambiguous t ms := by
  unfold ofOverloads? at ho
  split at ho
  · cases ho
  · rename_i m
    exact .inl ⟨m, rfl, (Option.some.inj ho).symm⟩
  · rename_i hnone hone
    refine .inr ⟨?_, (Option.some.inj ho).symm⟩
    match ms, hnone, hone with
    | [], hnone, _ => exact absurd rfl hnone
    | [m], _, hone => exact absurd rfl (hone m)
    | _ :: _ :: _, _, _ => simp

/-- Overloads that fit resolve a reference if there is one of them, and make it ambiguous else. -/
theorem exists_ofOverloads? {ms : List Method} (hms : ms ≠ []) :
    ∃ o, ofOverloads? resolved t ms = some o ∧ (∀ m, ms = [m] → o = resolved t m) ∧
      (2 ≤ ms.length → o = .ambiguous t ms) := by
  cases ms with
  | nil => exact absurd rfl hms
  | cons m ms =>
    cases ms with
    | nil =>
      refine ⟨resolved t m, rfl, ?_, ?_⟩
      · rintro _ ⟨⟩
        rfl
      · intro hlength
        simp at hlength
    | cons m' ms =>
      refine ⟨.ambiguous t (m :: m' :: ms), rfl, ?_, fun _ => rfl⟩
      intro _ hone
      simp at hone

/-- The first of several types with overloads that fit makes the choice. -/
theorem choosesMethod_findSome? {order : List JavaType} {fitting : JavaType → List Method}
    {declares : String → Method → Prop} (hresolved : ∀ m, resolved t m ≠ .unresolvedMethod t)
    (hdeclares : ∀ n m, declares n m ↔ ∃ u ∈ order, u.name = n ∧ m ∈ fitting u) :
    ((order.findSome? fun u => ofOverloads? resolved t (fitting u)).getD
      (.unresolvedMethod t)).ChoosesMethod resolved t declares := by
  cases hfirst : order.findSome? fun u => ofOverloads? resolved t (fitting u) with
  | none =>
    have hnone : ¬ ∃ n m, declares n m := by
      rintro ⟨n, m, hm⟩
      obtain ⟨u, hu, -, hfits⟩ := (hdeclares n m).1 hm
      have hempty := ofOverloads?_eq_none_iff.1 (List.findSome?_eq_none_iff.1 hfirst u hu)
      simp [hempty] at hfits
    exact ⟨by simpa using hnone, fun h => absurd rfl h⟩
  | some o =>
    obtain ⟨u, hu, ho⟩ := List.exists_of_findSome?_eq_some hfirst
    have hall : ∀ m ∈ fitting u, declares u.name m := fun m hm =>
      (hdeclares u.name m).2 ⟨u, hu, rfl, hm⟩
    -- All candidates are overloads of the type that decided.
    rcases ofOverloads?_eq_some ho with ⟨m, hone, rfl⟩ | ⟨hmany, rfl⟩
    · have hm : declares u.name m := hall m (by simp [hone])
      exact ⟨iff_of_false (hresolved m) fun h => h ⟨_, _, hm⟩, fun _ => ⟨_, .inl ⟨m, hm, rfl⟩⟩⟩
    · obtain ⟨m, hm⟩ : ∃ m, m ∈ fitting u := List.exists_mem_of_length_pos (by omega)
      exact ⟨iff_of_false (by simp) fun h => h ⟨_, _, hall m hm⟩,
        fun _ => ⟨_, .inr ⟨_, hmany, hall, rfl⟩⟩⟩

theorem choosesField_findSome? {order : List JavaType} {fitting : JavaType → List Field}
    {declares : String → Field → Prop}
    (hdeclares : ∀ n f, declares n f ↔ ∃ u ∈ order, u.name = n ∧ f ∈ fitting u) :
    ((order.findSome? fun u => (fitting u).head?.map (resolvedField t)).getD
      (unresolvedField t)).ChoosesField t declares := by
  cases hfirst : order.findSome? fun u => (fitting u).head?.map (resolvedField t) with
  | none =>
    have hnone : ¬ ∃ n f, declares n f := by
      rintro ⟨n, f, hf⟩
      obtain ⟨u, hu, -, hfits⟩ := (hdeclares n f).1 hf
      have hempty := List.findSome?_eq_none_iff.1 hfirst u hu
      simp only [Option.map_eq_none_iff, List.head?_eq_none_iff] at hempty
      simp [hempty] at hfits
    exact ⟨by simpa using hnone, fun h => absurd rfl h⟩
  | some o =>
    obtain ⟨u, hu, ho⟩ := List.exists_of_findSome?_eq_some hfirst
    obtain ⟨f, hhead, rfl⟩ := Option.map_eq_some_iff.1 ho
    have hf : declares u.name f := (hdeclares u.name f).2 ⟨u, hu, rfl, List.mem_of_head? hhead⟩
    exact ⟨iff_of_false (by simp) fun h => h ⟨_, _, hf⟩, fun _ => ⟨_, _, hf, rfl⟩⟩

end Outcome

/-! ## References -/

namespace StaticIndex

/-- The types whose methods a type has: those that it reaches, and also the root class if it is an
interface. -/
def Inherits (s : StaticIndex) (t : JavaType) (n : String) : Prop :=
  s.hierarchy.Reaches t.name n ∨ t.isInterface ∧ n = JavaType.objectName

theorem mem_fieldOrder_iff (s : StaticIndex) (t : JavaType) (n : String) :
    (∃ u ∈ s.fieldOrder t, u.name = n) ↔ s.hierarchy.Reaches t.name n := by
  rw [← TypeIndex.mem_supertypes_iff s.follows, List.mem_map]
  rfl

theorem name_eq_of_typeOf? {s : StaticIndex} {n : String} {t : JavaType}
    (ht : s.typeOf? n = some t) : t.name = n := by
  obtain ⟨e, he, rfl⟩ := Option.map_eq_some_iff.1 ht
  exact name_of_stored? he

theorem inherits_of_mem_methodOrder {s : StaticIndex} {t u : JavaType}
    (hu : u ∈ s.methodOrder t) : s.Inherits t u.name := by
  rcases List.mem_append.1 hu with hu | hu
  · exact .inl ((s.mem_fieldOrder_iff t u.name).1 ⟨u, hu, rfl⟩)
  · split at hu
    · rename_i hinterface
      exact .inr ⟨hinterface, name_eq_of_typeOf? (Option.mem_toList.1 hu)⟩
    · simp at hu

theorem mem_methodOrder_of_inherits {s : StaticIndex} {t : JavaType} {n : String}
    (hn : s.Inherits t n) {d : TypeDecl} (hd : s.find? n = some d) :
    ∃ u ∈ s.methodOrder t, u.name = n := by
  rcases hn with hreach | ⟨hinterface, rfl⟩
  · obtain ⟨u, hu, rfl⟩ := (s.mem_fieldOrder_iff t n).2 hreach
    exact ⟨u, List.mem_append_left _ hu, rfl⟩
  -- The root class is asked for by name, so the order has it only where the index does.
  · have hobject : s.typeOf? JavaType.objectName = some ⟨JavaType.objectName, d.kind⟩ := by
      rw [typeOf?_eq, hd, Option.map_some]
    refine ⟨⟨JavaType.objectName, d.kind⟩, List.mem_append_right _ ?_, rfl⟩
    simp [hinterface, hobject]

theorem findMethod_chooses (s : StaticIndex) (t : JavaType) (name signature : String) :
    ∃ o, s.toIndex.findMethod t name signature = .ok o ∧
      o.ChoosesMethod .resolvedMethod t
        fun n m => s.Inherits t n ∧ s.DeclaresMethod n name signature m := by
  refine ⟨_, s.findMethod_eq t name signature, Outcome.choosesMethod_findSome? (by simp) ?_⟩
  intro n m
  constructor
  -- A type that declares a method is one that the index holds.
  · rintro ⟨hn, hm⟩
    obtain ⟨d, hd, -⟩ := id hm
    obtain ⟨u, hu, rfl⟩ := mem_methodOrder_of_inherits hn hd
    exact ⟨u, hu, rfl, mem_methodsOf_iff.2 hm⟩
  · rintro ⟨u, hu, rfl, hm⟩
    exact ⟨inherits_of_mem_methodOrder hu, mem_methodsOf_iff.1 hm⟩

theorem findField_chooses (s : StaticIndex) (t : JavaType) (name : String) :
    ∃ o, s.toIndex.findField t name = .ok o ∧
      o.ChoosesField t fun n f => s.hierarchy.Reaches t.name n ∧ s.DeclaresField n name f := by
  refine ⟨_, s.findField_eq t name, Outcome.choosesField_findSome? ?_⟩
  intro n f
  rw [← s.mem_fieldOrder_iff]
  constructor
  · rintro ⟨⟨u, hu, rfl⟩, hf⟩
    exact ⟨u, hu, rfl, mem_fieldsOf_iff.2 hf⟩
  · rintro ⟨u, hu, rfl, hf⟩
    exact ⟨⟨u, hu, rfl⟩, mem_fieldsOf_iff.1 hf⟩

theorem findConstructor_chooses (s : StaticIndex) {t : JavaType} (ht : s.typeOf? t.name = some t)
    (signature : String) :
    ∃ o, s.toIndex.findConstructor t signature = .ok o ∧
      o.ChoosesMethod .resolvedConstructor t
        fun n m => n = t.name ∧ s.DeclaresConstructor n signature m := by
  -- It is the look-up along an order that holds the type alone.
  have halone := @Outcome.choosesMethod_findSome? .resolvedConstructor t [t]
    (fun u => (TypeIndex.availableConstructors u (s.constructorsOf u.name)).filter
      (·.hasSignature signature))
    (fun n m => n = t.name ∧ s.DeclaresConstructor n signature m) (by simp) (by
      intro n m
      constructor
      · rintro ⟨rfl, hm⟩
        exact ⟨t, List.mem_singleton_self t, rfl, (mem_availableConstructors_iff ht).2 hm⟩
      · rintro ⟨u, hu, rfl, hm⟩
        obtain rfl := List.mem_singleton.1 hu
        exact ⟨rfl, (mem_availableConstructors_iff ht).1 hm⟩)
  refine ⟨_, s.findConstructor_eq t signature, ?_⟩
  simpa using halone

theorem resolveName_eq (s : StaticIndex) (context : ImportContext) (n : TypeName) :
    s.toIndex.resolveName context n
      = .ok ((Scope.all.flatMap (·.candidates context n)).findSome? s.typeOf?) := by
  rw [TypeIndex.resolveName, TypeIndex.resolveAlong_eq_findFirst,
    TypeIndex.findFirst_eq fun _ => rfl]

theorem resolveType_eq_ok (s : StaticIndex) (context : ImportContext) (className : String) :
    ∃ found, s.toIndex.resolveType context className = .ok found ∧
      ∀ t ∈ found, s.typeOf? t.name = some t := by
  have hstored : ∀ (n : TypeName),
      ∀ t ∈ (Scope.all.flatMap (·.candidates context n)).findSome? s.typeOf?,
        s.typeOf? t.name = some t := by
    intro n t ht
    obtain ⟨name, -, hname⟩ := List.exists_of_findSome?_eq_some ht
    rwa [name_eq_of_typeOf? hname]
  unfold TypeIndex.resolveType
  simp only [resolveName_eq]
  -- First the dotted name is looked up, then the name as written.
  split
  · exact ⟨none, rfl, by simp⟩
  · cases hdotted : (Scope.all.flatMap (·.candidates context (.ofBinary className))).findSome?
        s.typeOf? with
    | some t => exact ⟨some t, rfl, fun u hu => hstored (.ofBinary className) u (hdotted ▸ hu)⟩
    | none =>
      simp only [bind, Except.bind]
      split
      · exact ⟨_, rfl, hstored (.verbatim className)⟩
      · exact ⟨none, rfl, by simp⟩

/-- What an outcome says of the members that a reference to a type is about: methods are those of
all types it inherits from, fields those of the types it reaches, and constructors its own. -/
def Decides (s : StaticIndex) (t : JavaType) (r : Reference) (o : Outcome) : Prop :=
  match r.kind with
  | .classOnly   => o = .resolvedClass t
  | .method      => o.ChoosesMethod .resolvedMethod t
      fun n m => s.Inherits t n ∧ s.DeclaresMethod n r.memberName r.signature m
  | .field       => o.ChoosesField t
      fun n f => s.hierarchy.Reaches t.name n ∧ s.DeclaresField n r.memberName f
  | .constructor => o.ChoosesMethod .resolvedConstructor t
      fun n m => n = t.name ∧ s.DeclaresConstructor n r.signature m

/-- The outcomes of references to a type are about it and about the kind of the reference. -/
theorem resolve_of_resolveType {s : StaticIndex} {context : ImportContext} {r : Reference}
    {t : JavaType} (hnull : r.isNull = false)
    (hfound : s.toIndex.resolveType context r.className = .ok (some t))
    (hstored : s.typeOf? t.name = some t) :
    ∃ o, s.toIndex.resolve context r = .ok o ∧
      o.owner? = some t ∧ o.FitsKind r.kind ∧ s.Decides t r o := by
  unfold TypeIndex.resolve Decides
  simp only [hnull, hfound, bind, Except.bind]
  cases r.kind with
  | classOnly => exact ⟨_, rfl, rfl, rfl, rfl⟩
  | method =>
    obtain ⟨o, ho, hchoice⟩ := s.findMethod_chooses t r.memberName r.signature
    refine ⟨o, ho, ?_, ?_, hchoice⟩ <;>
      rcases hchoice.eq_or with rfl | ⟨m, rfl⟩ | ⟨ms, rfl⟩ <;>
      simp [Outcome.owner?, Outcome.FitsKind]
  | field =>
    obtain ⟨o, ho, hchoice⟩ := s.findField_chooses t r.memberName
    refine ⟨o, ho, ?_, ?_, hchoice⟩ <;>
      rcases hchoice.eq_or with rfl | ⟨f, rfl⟩ <;> simp [Outcome.owner?, Outcome.FitsKind]
  | constructor =>
    obtain ⟨o, ho, hchoice⟩ := s.findConstructor_chooses hstored r.signature
    refine ⟨o, ho, ?_, ?_, hchoice⟩ <;>
      rcases hchoice.eq_or with rfl | ⟨m, rfl⟩ | ⟨ms, rfl⟩ <;>
      simp [Outcome.owner?, Outcome.FitsKind]

/-- Every reference to a class other than `null` gets an outcome: it is unresolved if its class name
stands for no type, and otherwise decided by that type and what is above it. -/
theorem resolve_toIndex (s : StaticIndex) (context : ImportContext) (r : Reference)
    (hr : r.className ≠ Reference.nullName) :
    ∃ found, s.toIndex.resolveType context r.className = .ok found ∧
      (found = none → s.toIndex.resolve context r = .ok .unresolvedType) ∧
      ∀ t, found = some t → ∃ o, s.toIndex.resolve context r = .ok o ∧
        o.owner? = some t ∧ o.FitsKind r.kind ∧ s.Decides t r o := by
  have hnull : r.isNull = false := by simpa [Reference.isNull] using hr
  obtain ⟨found, hfound, hstored⟩ := s.resolveType_eq_ok context r.className
  refine ⟨found, hfound, ?_, ?_⟩
  · rintro rfl
    unfold TypeIndex.resolve
    -- Without a type no member is looked up.
    simp only [hnull, hfound, bind, Except.bind]
    rfl
  · rintro t rfl
    exact resolve_of_resolveType hnull hfound (hstored t rfl)

/-- Two interfaces that extend each other, the second with two overloads of `m`. -/
def mutualInterfaces : StaticIndex :=
  empty.applyAll [
    .addInterface "a.I" ["a.J"], .addInterface "a.J" ["a.I"],
    .addMethod "a.J" "m" ["int"], .addMethod "a.J" "m" ["long"]]

theorem resolve_mutualInterfaces :
    let r : Reference := ⟨0, 9, "I", "m", .method, "*", "a.I#f"⟩
    let t : JavaType := ⟨"a.I", .interfaceKind⟩
    let o : Outcome :=
      .ambiguous t [⟨"m", "a.J", [.primitive .int]⟩, ⟨"m", "a.J", [.primitive .long]⟩]
    r.className ≠ Reference.nullName ∧
      mutualInterfaces.toIndex.resolveType { package := some "a" } "I" = .ok (some t) ∧
      mutualInterfaces.toIndex.resolve { package := some "a" } r = .ok o ∧
      mutualInterfaces.Decides t r o := by
  intro r t o
  have hr : r.className ≠ Reference.nullName := by decide
  have htype : mutualInterfaces.toIndex.resolveType { package := some "a" } "I" = .ok (some t) := by
    cbv
  have hresolve : mutualInterfaces.toIndex.resolve { package := some "a" } r = .ok o := by cbv
  refine ⟨hr, htype, hresolve, ?_⟩
  obtain ⟨found, hfound, -, h⟩ := resolve_toIndex mutualInterfaces { package := some "a" } r hr
  cases hfound.symm.trans htype
  obtain ⟨o', ho', -, -, hdecides⟩ := h t rfl
  cases ho'.symm.trans hresolve
  exact hdecides

end StaticIndex

end Jsni
