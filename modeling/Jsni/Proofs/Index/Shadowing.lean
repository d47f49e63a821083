import Jsni.Proofs.Index.Agreement

/-!
# Shadowing

The first type of the look-up order that declares a fitting member decides a look-up, by what it
declares itself. What the types after it declare makes no difference.
-/

namespace Jsni

/-! ## Members of one declaration -/

namespace TypeDecl

/-- The methods of a name that a signature stands for, as declared. -/
def overloads (d : TypeDecl) (name signature : String) : List MethodDecl :=
  d.methods.filter fun m =>
    m.name = name ∧ (signature = anySignature ∨ descriptorOf m.parameters = signature)

/-- The fields of a name, as declared. -/
def fieldsNamed (d : TypeDecl) (name : String) : List FieldDecl :=
  d.fields.filter (·.name = name)

end TypeDecl

def MethodDecl.toMethod (m : MethodDecl) (declaringType : String) : Method :=
  ⟨m.name, declaringType, m.parameters⟩

def FieldDecl.toField (f : FieldDecl) (declaringType : String) : Field :=
  ⟨f.name, declaringType, f.type⟩

theorem findSome?_append_cons {f : α → Option β} {before after : List α} {x : α} {y : β}
    (hbefore : ∀ z ∈ before, f z = none) (hx : f x = some y) :
    (before ++ x :: after).findSome? f = some y := by
  rw [List.findSome?_append, List.findSome?_eq_none_iff.2 hbefore, List.findSome?_cons, hx]
  rfl

namespace StaticIndex

/-- `u` comes after `before` in an order of types and is the first of them whose declaration has
members of some sort. Those it has are `found`. -/
structure IsFirst (s : StaticIndex) (members : TypeDecl → List α) (order before : List JavaType)
    (u : JavaType) (found : List α) : Prop where
  split : ∃ after, order = before ++ u :: after
  none_before : ∀ v ∈ before, ∀ d, s.find? v.name = some d → members d = []
  declared : ∃ d, s.find? u.name = some d ∧ members d = found
  nonempty : found ≠ []

variable {s s' : StaticIndex} {members : TypeDecl → List α} {order before : List JavaType}
  {t u : JavaType} {name signature : String}

/-- Another index has the same first type if the types up to there have the same declarations. -/
theorem IsFirst.congr {found : List α} (hfirst : s.IsFirst members order before u found)
    (hagree : ∀ v ∈ before ++ [u], s'.find? v.name = s.find? v.name) :
    s'.IsFirst members order before u found := by
  refine ⟨hfirst.split, ?_, ?_, hfirst.nonempty⟩
  · intro v hv d hd
    exact hfirst.none_before v hv d ((hagree v (List.mem_append_left _ hv)).symm.trans hd)
  · obtain ⟨d, hd, hfound⟩ := hfirst.declared
    exact ⟨d, (hagree u (List.mem_append_right _ (List.mem_singleton_self u))).trans hd, hfound⟩

/-! ## Outcomes -/

theorem methodOutcome?_eq (s : StaticIndex) (t : JavaType) (name signature : String)
    (u : JavaType) :
    s.methodOutcome? t name signature u
      = (s.find? u.name).bind fun d => Outcome.ofOverloads? .resolvedMethod t
          ((d.overloads name signature).map (·.toMethod u.name)) := by
  rw [methodOutcome?, methodsOf_eq]
  cases s.find? u.name with
  | none => rfl
  | some d =>
    simp only [Option.elim_some, List.filter_map, List.filter_filter, Option.bind_some,
      TypeDecl.overloads]
    congr 2
    apply List.filter_congr
    intro m _
    rw [Bool.eq_iff_iff]
    simp [Method.hasSignature_iff, Method.descriptor, and_comm]

theorem fieldOutcome?_eq (s : StaticIndex) (t : JavaType) (name : String) (u : JavaType) :
    s.fieldOutcome? t name u
      = (s.find? u.name).bind fun d =>
          ((d.fieldsNamed name).map (·.toField u.name)).head?.map (.resolvedField t) := by
  rw [fieldOutcome?, fieldsOf_eq]
  cases s.find? u.name <;> rfl

/-- The members of the first type that has some decide along the order. -/
theorem IsFirst.findSome?_eq {found : List α} (hfirst : s.IsFirst members order before u found)
    (outcome : JavaType → List α → Option Outcome) (hnil : ∀ v, outcome v [] = none)
    {o : Outcome} (ho : outcome u found = some o) :
    order.findSome? (fun v => (s.find? v.name).bind fun d => outcome v (members d)) = some o := by
  obtain ⟨after, rfl⟩ := hfirst.split
  obtain ⟨d, hd, rfl⟩ := hfirst.declared
  refine findSome?_append_cons ?_ (by rw [hd]; exact ho)
  intro v hv
  cases hfind : s.find? v.name with
  | none => rfl
  | some e =>
    rw [Option.bind_some, hfirst.none_before v hv e hfind]
    exact hnil v

theorem findMethod_of_isFirst {found : List MethodDecl}
    (hfirst : s.IsFirst (·.overloads name signature) (s.methodOrder t) before u found)
    {o : Outcome}
    (ho : Outcome.ofOverloads? .resolvedMethod t (found.map (·.toMethod u.name)) = some o) :
    s.toIndex.findMethod t name signature = .ok o := by
  have hdecided := hfirst.findSome?_eq
    (fun v ms => Outcome.ofOverloads? .resolvedMethod t (ms.map (·.toMethod v.name)))
    (fun _ => rfl) ho
  rw [findMethod_eq, funext (s.methodOutcome?_eq t name signature), hdecided]
  rfl

theorem findField_of_isFirst {f : FieldDecl} {more : List FieldDecl}
    (hfirst : s.IsFirst (·.fieldsNamed name) (s.fieldOrder t) before u (f :: more)) :
    s.toIndex.findField t name = .ok (.resolvedField t (f.toField u.name)) := by
  have hdecided := hfirst.findSome?_eq
    (fun v fs => (fs.map (·.toField v.name)).head?.map (.resolvedField t))
    (fun _ => rfl) rfl
  rw [findField_eq, funext (s.fieldOutcome?_eq t name), hdecided]
  rfl

/-! ## Changes further along the order -/

theorem SameHeaders.fieldOrder_eq (hheaders : s.SameHeaders s') (t : JavaType) :
    s'.fieldOrder t = s.fieldOrder t := by
  have hwalk : s'.toIndex.supertypes t = s.toIndex.supertypes t := by
    apply TypeIndex.supertypes_congr s.follows
    · intro u _
      exact congrArg Except.ok (superclass?_congr hheaders.sameTypes (hheaders u.name))
    · intro u _
      exact congrArg Except.ok (interfacesOf_congr hheaders.sameTypes (hheaders u.name))
  rw [fieldOrder, fieldOrder, hwalk]

theorem SameHeaders.methodOrder_eq (hheaders : s.SameHeaders s') (t : JavaType) :
    s'.methodOrder t = s.methodOrder t := by
  rw [methodOrder, methodOrder, hheaders.fieldOrder_eq, hheaders.sameTypes.typeOf?_eq]

/-- A look-up is decided by the first type of its order that declares a member that fits. It gives
the one method of this type that fits or all of them in the order they are declared, and of fields
the first. No index with the same hierarchy whose types up to this one declare the same decides
otherwise. -/
theorem decided_by_first (s : StaticIndex) (t : JavaType) (name : String) :
    (∀ signature before u found,
      s.IsFirst (·.overloads name signature) (s.methodOrder t) before u found →
      let hits := found.map (·.toMethod u.name)
      ∃ o, s.toIndex.findMethod t name signature = .ok o ∧
        (∀ m, hits = [m] → o = .resolvedMethod t m) ∧
        (2 ≤ hits.length → o = .ambiguous t hits) ∧
        ∀ s', s.SameHeaders s' →
          (∀ v ∈ before ++ [u], s'.find? v.name = s.find? v.name) →
          s'.toIndex.findMethod t name signature = .ok o)
    ∧ ∀ before u f more,
      s.IsFirst (·.fieldsNamed name) (s.fieldOrder t) before u (f :: more) →
      s.toIndex.findField t name = .ok (.resolvedField t (f.toField u.name)) ∧
        ∀ s', s.SameHeaders s' →
          (∀ v ∈ before ++ [u], s'.find? v.name = s.find? v.name) →
          s'.toIndex.findField t name = .ok (.resolvedField t (f.toField u.name)) := by
  constructor
  · intro signature before u found hfirst hits
    have hhits : hits ≠ [] := by
      rw [ne_eq, List.map_eq_nil_iff]
      exact hfirst.nonempty
    obtain ⟨o, ho, hone, hmany⟩ := Outcome.exists_ofOverloads? hhits
    refine ⟨o, findMethod_of_isFirst hfirst ho, hone, hmany, ?_⟩
    intro s' hheaders hagree
    have hfirst' : s'.IsFirst (·.overloads name signature) (s'.methodOrder t) before u found := by
      rw [hheaders.methodOrder_eq]
      exact hfirst.congr hagree
    exact findMethod_of_isFirst hfirst' ho
  · intro before u f more hfirst
    refine ⟨findField_of_isFirst hfirst, ?_⟩
    intro s' hheaders hagree
    have hfirst' : s'.IsFirst (·.fieldsNamed name) (s'.fieldOrder t) before u (f :: more) := by
      rw [hheaders.fieldOrder_eq]
      exact hfirst.congr hagree
    exact findField_of_isFirst hfirst'

/-- A class, its superclass and an interface of it, which both declare a method and a field of the
same names. -/
def shadowedInterface : StaticIndex :=
  ofEntries [
    ⟨"I", ⟨.interfaceKind, none, [], [⟨"x", .primitive .int⟩], [⟨"m", [.primitive .int]⟩], []⟩⟩,
    ⟨"A", ⟨.classKind, none, [], [⟨"x", .primitive .long⟩],
      [⟨"m", [.primitive .int]⟩, ⟨"m", [.primitive .long]⟩], []⟩⟩,
    ⟨"C", { superclass := some "A", interfaces := ["I"] }⟩]

theorem fieldOrder_shadowedInterface :
    shadowedInterface.fieldOrder ⟨"C", .classKind⟩
      = [⟨"C", .classKind⟩, ⟨"A", .classKind⟩, ⟨"I", .interfaceKind⟩] := by
  let c : JavaType := ⟨"C", .classKind⟩
  let idx := shadowedInterface.toIndex
  have hC : shadowedInterface.superclass? "C" = some ⟨"A", .classKind⟩ := rfl
  have hA : shadowedInterface.superclass? "A" = none := rfl
  have hchain : (idx.superclassChain ["C"] c).types = [⟨"A", .classKind⟩] := by
    rw [TypeIndex.superclassChain_of_new (congrArg Except.ok hC) (by decide),
      TypeIndex.superclassChain_of_none (congrArg Except.ok hA)]
    rfl
  have hdirect : shadowedInterface.hierarchy.interfaces "C" = [⟨"I", .interfaceKind⟩]
      ∧ shadowedInterface.hierarchy.interfaces "A" = [] := ⟨rfl, rfl⟩
  have hI : idx.interfaces ⟨"I", .interfaceKind⟩ = .ok [] := rfl
  rw [fieldOrder, TypeIndex.supertypes_eq shadowedInterface.follows]
  simp [c, idx, hchain, hdirect, TypeIndex.fresh, TypeIndex.interfaceClosure_cons hI,
    TypeIndex.interfaceClosure_nil, Walk.cons, Walk.ended]

theorem decided_by_first_shadowed :
    let s := shadowedInterface
    let s' := s.apply (.addMethod "I" "m" ["long"])
    let c : JavaType := ⟨"C", .classKind⟩
    let a : JavaType := ⟨"A", .classKind⟩
    let o : Outcome :=
      .ambiguous c [⟨"m", "A", [.primitive .int]⟩, ⟨"m", "A", [.primitive .long]⟩]
    let o' : Outcome := .resolvedField c ⟨"x", "A", .primitive .long⟩
    s.IsFirst (·.overloads "m" "*") (s.methodOrder c) [c] a
        [⟨"m", [.primitive .int]⟩, ⟨"m", [.primitive .long]⟩]
      ∧ s.IsFirst (·.fieldsNamed "x") (s.fieldOrder c) [c] a [⟨"x", .primitive .long⟩]
      ∧ s.SameHeaders s' ∧ (∀ v ∈ [c] ++ [a], s'.find? v.name = s.find? v.name)
      ∧ s.toIndex.findMethod c "m" "*" = .ok o ∧ s'.toIndex.findMethod c "m" "*" = .ok o
      ∧ s.toIndex.findField c "x" = .ok o' ∧ s'.toIndex.findField c "x" = .ok o' := by
  intro s s' c a o o'
  have hC : s.find? "C" = some { superclass := some "A", interfaces := ["I"] } := rfl
  have hA : s.find? "A" = some ⟨.classKind, none, [], [⟨"x", .primitive .long⟩],
      [⟨"m", [.primitive .int]⟩, ⟨"m", [.primitive .long]⟩], []⟩ := rfl
  have hnone : ∀ v ∈ [c], ∀ d, s.find? v.name = some d → d.methods = [] ∧ d.fields = [] := by
    intro v hv d hd
    obtain rfl := List.mem_singleton.1 hv
    cases hC.symm.trans hd
    exact ⟨rfl, rfl⟩
  have horder : s.methodOrder c = [c] ++ a :: [⟨"I", .interfaceKind⟩] := by
    rw [methodOrder, fieldOrder_shadowedInterface]
    rfl
  have hmethods : s.IsFirst (·.overloads "m" "*") (s.methodOrder c) [c] a
      [⟨"m", [.primitive .int]⟩, ⟨"m", [.primitive .long]⟩] := by
    refine ⟨⟨_, horder⟩, ?_, ⟨_, hA, by decide⟩, by simp⟩
    intro v hv d hd
    simp [TypeDecl.overloads, (hnone v hv d hd).1]
  have hfields : s.IsFirst (·.fieldsNamed "x") (s.fieldOrder c) [c] a
      [⟨"x", .primitive .long⟩] := by
    refine ⟨⟨_, fieldOrder_shadowedInterface⟩, ?_, ⟨_, hA, by decide⟩, by simp⟩
    intro v hv d hd
    simp [TypeDecl.fieldsNamed, (hnone v hv d hd).2]
  have hI : s.find? "I"
      = some ⟨.interfaceKind, none, [], [⟨"x", .primitive .int⟩], [⟨"m", [.primitive .int]⟩], []⟩ :=
    rfl
  have hheaders : s.SameHeaders s' := sameHeaders_apply (e := .addMethod "I" "m" ["long"]) hI rfl
  have hagree : ∀ v ∈ [c] ++ [a], s'.find? v.name = s.find? v.name := by
    intro v hv
    apply find?_apply_of_ne
    rcases List.mem_cons.1 hv with rfl | hv
    · decide
    · obtain rfl := List.mem_singleton.1 hv
      decide
  obtain ⟨p, hp, -, hmany, hsame⟩ := (decided_by_first s c "m").1 "*" _ _ _ hmethods
  obtain ⟨hf, hsame'⟩ := (decided_by_first s c "x").2 _ _ _ _ hfields
  obtain rfl : p = o := hmany (by decide)
  exact ⟨hmethods, hfields, hheaders, hagree, hp, hsame s' hheaders hagree, hf,
    hsame' s' hheaders hagree⟩

end StaticIndex

end Jsni
