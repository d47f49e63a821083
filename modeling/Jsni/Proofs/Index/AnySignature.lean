import Jsni.Proofs.Index.Shadowing

/-!
# The signature for any parameters

No method has the descriptor `*`, so a reference with this signature can always be made exact. It is
unresolved only where every exact signature is, it is decided no later along the look-up order than
any of them, and where it finds one method the descriptor of that method finds the same.
-/

namespace Jsni

/-! ## Descriptors -/

theorem ErasedType.exists_descriptorChars_cons (t : ErasedType) :
    ∃ c cs, t.descriptorChars = c :: cs ∧ c ≠ '*' := by
  cases t with
  | primitive p => exact ⟨p.code, [], rfl, by cases p <;> decide⟩
  | named name => exact ⟨'L', _, rfl, by decide⟩
  | array element => exact ⟨'[', _, rfl, by decide⟩

theorem descriptorOf_ne_anySignature (parameters : List ErasedType) :
    descriptorOf parameters ≠ anySignature := by
  intro h
  have hchars : parameters.flatMap ErasedType.descriptorChars = ['*'] := by
    simpa [descriptorOf, anySignature] using congrArg String.toList h
  cases parameters with
  | nil => cases hchars
  | cons t ts =>
    obtain ⟨c, cs, ht, hc⟩ := t.exists_descriptorChars_cons
    rw [List.flatMap_cons, ht, List.cons_append] at hchars
    exact hc (List.cons.inj hchars).1

/-! ## Overloads of one declaration -/

theorem TypeDecl.overloads_eq_filter (d : TypeDecl) (name signature : String) :
    d.overloads name signature
      = (d.overloads name anySignature).filter
          fun m => signature = anySignature ∨ descriptorOf m.parameters = signature := by
  unfold overloads
  rw [List.filter_filter]
  apply List.filter_congr
  intro m _
  simp [Bool.and_comm]

theorem TypeDecl.overloads_eq_nil {d : TypeDecl} {name : String}
    (hnone : d.overloads name anySignature = []) (signature : String) :
    d.overloads name signature = [] := by
  rw [overloads_eq_filter, hnone, List.filter_nil]

namespace StaticIndex

variable {s : StaticIndex} {t u : JavaType} {name signature : String} {before : List JavaType}

/-! ## Where a look-up is decided -/

theorem exists_isFirst (s : StaticIndex) (members : TypeDecl → List α) {order : List JavaType}
    {d : TypeDecl} (hu : u ∈ order) (hd : s.find? u.name = some d) (hmembers : members d ≠ []) :
    ∃ before v found, s.IsFirst members order before v found := by
  induction order with
  | nil => cases hu
  | cons v order ih =>
    -- Where the first type has no members, the search goes on behind it.
    by_cases hv : ∃ e, s.find? v.name = some e ∧ members e ≠ []
    · obtain ⟨e, he, hfound⟩ := hv
      exact ⟨[], v, members e, ⟨order, rfl⟩, by simp, ⟨e, he, rfl⟩, hfound⟩
    · have hnone : ∀ e, s.find? v.name = some e → members e = [] := by
        intro e he
        by_contra hfound
        exact hv ⟨e, he, hfound⟩
      have hrest : u ∈ order := by
        rcases List.mem_cons.1 hu with rfl | hu
        · exact absurd (hnone d hd) hmembers
        · exact hu
      obtain ⟨before, w, found, hfirst⟩ := ih hrest
      obtain ⟨after, rfl⟩ := hfirst.split
      exact ⟨v :: before, w, found, ⟨after, rfl⟩,
        List.forall_mem_cons.2 ⟨hnone, hfirst.none_before⟩, hfirst.declared, hfirst.nonempty⟩

theorem IsFirst.of_isPrefix {members : TypeDecl → List α} {front order : List JavaType}
    {found : List α} (hfirst : s.IsFirst members front before u found) (hfront : front <+: order) :
    s.IsFirst members order before u found := by
  obtain ⟨after, rfl⟩ := hfirst.split
  obtain ⟨more, rfl⟩ := hfront
  exact ⟨⟨after ++ more, by simp⟩, hfirst.none_before, hfirst.declared, hfirst.nonempty⟩

/-- The look-up of a method is decided at the type `u`, which comes after `before` in the look-up
order, by the overloads that `u` itself declares. -/
def DecidedAt (s : StaticIndex) (t : JavaType) (name signature : String) (before : List JavaType)
    (u : JavaType) (o : Outcome) : Prop :=
  ∃ found, s.IsFirst (·.overloads name signature) (s.methodOrder t) before u found
    ∧ Outcome.ofOverloads? .resolvedMethod t (found.map (·.toMethod u.name)) = some o

theorem DecidedAt.findMethod_eq {o : Outcome} (h : s.DecidedAt t name signature before u o) :
    s.toIndex.findMethod t name signature = .ok o := by
  obtain ⟨found, hfirst, ho⟩ := h
  exact findMethod_of_isFirst hfirst ho

theorem exists_decidedAt_of_isFirst {found : List MethodDecl}
    (hfirst : s.IsFirst (·.overloads name signature) (s.methodOrder t) before u found) :
    ∃ o, s.DecidedAt t name signature before u o := by
  have hhits : found.map (·.toMethod u.name) ≠ [] := by
    rw [ne_eq, List.map_eq_nil_iff]
    exact hfirst.nonempty
  obtain ⟨o, ho, -, -⟩ := Outcome.exists_ofOverloads? hhits
  exact ⟨o, found, hfirst, ho⟩

/-- Every outcome but the unresolved one is decided at some type. -/
theorem exists_decidedAt {o : Outcome} (ho : s.toIndex.findMethod t name signature = .ok o)
    (hne : o ≠ .unresolvedMethod t) : ∃ before u, s.DecidedAt t name signature before u o := by
  rw [StaticIndex.findMethod_eq] at ho
  cases hdecided : (s.methodOrder t).findSome? (s.methodOutcome? t name signature) with
  | none =>
    rw [hdecided] at ho
    exact absurd (Except.ok.inj ho).symm hne
  | some p =>
    obtain ⟨v, hv, hp⟩ := List.exists_of_findSome?_eq_some hdecided
    rw [methodOutcome?_eq] at hp
    obtain ⟨d, hd, hp⟩ := Option.bind_eq_some_iff.1 hp
    have hmembers : d.overloads name signature ≠ [] := by
      intro hnone
      rw [hnone] at hp
      cases hp
    obtain ⟨before, u, found, hfirst⟩ :=
      s.exists_isFirst (·.overloads name signature) hv hd hmembers
    obtain ⟨q, hq⟩ := exists_decidedAt_of_isFirst hfirst
    -- The first type that declares overloads is the one whose outcome is given.
    have hsame : Except.ok q = Except.ok (ε := IndexError) o := by
      rw [← hq.findMethod_eq, StaticIndex.findMethod_eq]
      exact ho
    exact ⟨before, u, Except.ok.inj hsame ▸ hq⟩

theorem findMethod_eq_unresolved_iff (s : StaticIndex) (t : JavaType) (name signature : String) :
    s.toIndex.findMethod t name signature = .ok (.unresolvedMethod t)
      ↔ ¬ ∃ n m, s.Inherits t n ∧ s.DeclaresMethod n name signature m := by
  obtain ⟨o, ho, hchoice⟩ := s.findMethod_chooses t name signature
  rw [ho, Except.ok.injEq, hchoice.unresolved_iff]

/-! ## Any signature and exact ones -/

theorem findMethod_any_eq_unresolved_iff (s : StaticIndex) (t : JavaType) (name : String) :
    s.toIndex.findMethod t name anySignature = .ok (.unresolvedMethod t)
      ↔ ∀ signature ≠ anySignature,
        s.toIndex.findMethod t name signature = .ok (.unresolvedMethod t) := by
  simp only [findMethod_eq_unresolved_iff]
  constructor
  · rintro hnone signature - ⟨n, m, hn, d, hd, hm, hname, htype, -⟩
    exact hnone ⟨n, m, hn, d, hd, hm, hname, htype, .inl rfl⟩
  · rintro hnone ⟨n, m, hn, d, hd, hm, hname, htype, -⟩
    -- The method would be found by its own descriptor.
    exact hnone m.descriptor (descriptorOf_ne_anySignature m.parameters)
      ⟨n, m, hn, d, hd, hm, hname, htype, .inr rfl⟩

/-- Any signature is decided at the type where an exact one is or at a type before it. -/
theorem DecidedAt.exists_any {o : Outcome} (h : s.DecidedAt t name signature before u o) :
    ∃ before' u' o', before' ++ [u'] <+: before ++ [u]
      ∧ s.DecidedAt t name anySignature before' u' o' := by
  obtain ⟨found, hfirst, -⟩ := h
  obtain ⟨d, hd, hfound⟩ := hfirst.declared
  have hmembers : d.overloads name anySignature ≠ [] := by
    intro hnone
    exact hfirst.nonempty (hfound.symm.trans (TypeDecl.overloads_eq_nil hnone signature))
  -- In the order up to `u` there is a first type with overloads of the name.
  obtain ⟨before', u', found', hfirst'⟩ := s.exists_isFirst (·.overloads name anySignature)
    (List.mem_append_right before (List.mem_singleton_self u)) hd hmembers
  have hfront : before ++ [u] <+: s.methodOrder t := by
    obtain ⟨after, horder⟩ := hfirst.split
    exact ⟨after, by rw [horder, List.append_assoc, List.singleton_append]⟩
  obtain ⟨o', ho'⟩ := exists_decidedAt_of_isFirst (hfirst'.of_isPrefix hfront)
  obtain ⟨after, hsplit⟩ := hfirst'.split
  exact ⟨before', u', o', ⟨after, by rw [hsplit, List.append_assoc, List.singleton_append]⟩, ho'⟩

/-- The one method that any signature finds is found by its descriptor. -/
theorem DecidedAt.exact {owner : JavaType} {m : Method}
    (h : s.DecidedAt t name anySignature before u (.resolvedMethod owner m)) :
    s.DecidedAt t name m.descriptor before u (.resolvedMethod owner m) := by
  obtain ⟨found, hfirst, ho⟩ := h
  obtain ⟨hit, hone, heq⟩ | ⟨-, heq⟩ := Outcome.ofOverloads?_eq_some ho
  · obtain ⟨decl, rfl, rfl⟩ := List.map_eq_singleton_iff.1 hone
    obtain ⟨rfl, rfl⟩ := Outcome.resolvedMethod.inj heq
    refine ⟨[decl], ⟨hfirst.split, ?_, ?_, by simp⟩, ho⟩
    · intro v hv d hd
      exact TypeDecl.overloads_eq_nil (hfirst.none_before v hv d hd) _
    · obtain ⟨d, hd, hfound⟩ := hfirst.declared
      refine ⟨d, hd, ?_⟩
      rw [TypeDecl.overloads_eq_filter, hfound]
      simp [Method.descriptor, MethodDecl.toMethod]
  · cases heq

/-- A method is unresolved under any signature exactly if it is under every exact one. Any signature
is decided no later than an exact one that finds something, and where it finds one method, so does
the descriptor of this method. -/
theorem anySignature_agrees (s : StaticIndex) (t : JavaType) (name : String) :
    (s.toIndex.findMethod t name anySignature = .ok (.unresolvedMethod t)
        ↔ ∀ signature ≠ anySignature,
          s.toIndex.findMethod t name signature = .ok (.unresolvedMethod t))
    ∧ (∀ signature o, s.toIndex.findMethod t name signature = .ok o ∧ o ≠ .unresolvedMethod t
        ↔ ∃ before u, s.DecidedAt t name signature before u o)
    ∧ (∀ signature before u o, s.DecidedAt t name signature before u o →
        ∃ before' u' o', before' ++ [u'] <+: before ++ [u]
          ∧ s.DecidedAt t name anySignature before' u' o'
          ∧ s.toIndex.findMethod t name anySignature = .ok o')
    ∧ ∀ owner m, s.toIndex.findMethod t name anySignature = .ok (.resolvedMethod owner m) →
        s.toIndex.findMethod t name m.descriptor = .ok (.resolvedMethod owner m) := by
  refine ⟨s.findMethod_any_eq_unresolved_iff t name, ?_, ?_, ?_⟩
  · intro signature o
    constructor
    · rintro ⟨ho, hne⟩
      exact exists_decidedAt ho hne
    · rintro ⟨before, u, h⟩
      refine ⟨h.findMethod_eq, ?_⟩
      obtain ⟨found, -, ho⟩ := h
      obtain ⟨m, -, rfl⟩ | ⟨-, rfl⟩ := Outcome.ofOverloads?_eq_some ho <;> simp
  · intro signature before u o h
    obtain ⟨before', u', o', hinitial, h'⟩ := h.exists_any
    exact ⟨before', u', o', hinitial, h', h'.findMethod_eq⟩
  · intro owner m hfound
    obtain ⟨before, u, h⟩ := exists_decidedAt hfound (by simp)
    exact h.exact.findMethod_eq

/-- The interface of `shadowedInterface` with an overload that the superclass lacks, and the
superclass with a method that has no overloads. -/
def overloadedInterface : StaticIndex :=
  (shadowedInterface.apply (.addMethod "I" "m" [])).apply (.addMethod "A" "n" [])

theorem methodOrder_overloadedInterface :
    overloadedInterface.methodOrder ⟨"C", .classKind⟩
      = [⟨"C", .classKind⟩, ⟨"A", .classKind⟩, ⟨"I", .interfaceKind⟩] := by
  have hI : shadowedInterface.find? "I"
      = some ⟨.interfaceKind, none, [], [⟨"x", .primitive .int⟩], [⟨"m", [.primitive .int]⟩], []⟩ :=
    rfl
  have hA : (shadowedInterface.apply (.addMethod "I" "m" [])).find? "A"
      = some ⟨.classKind, none, [], [⟨"x", .primitive .long⟩],
          [⟨"m", [.primitive .int]⟩, ⟨"m", [.primitive .long]⟩], []⟩ := rfl
  have hfirst := sameHeaders_apply (e := .addMethod "I" "m" []) hI rfl
  have hsecond := sameHeaders_apply (e := .addMethod "A" "n" []) hA rfl
  rw [overloadedInterface, hsecond.methodOrder_eq, hfirst.methodOrder_eq, methodOrder,
    fieldOrder_shadowedInterface]
  rfl

theorem anySignature_agrees_overloaded :
    let s := overloadedInterface
    let c : JavaType := ⟨"C", .classKind⟩
    let a : JavaType := ⟨"A", .classKind⟩
    let i : JavaType := ⟨"I", .interfaceKind⟩
    let n : Method := ⟨"n", "A", []⟩
    (∀ signature ≠ "*", s.toIndex.findMethod c "p" signature = .ok (.unresolvedMethod c))
      ∧ s.DecidedAt c "m" "" [c, a] i (.resolvedMethod c ⟨"m", "I", []⟩)
      ∧ (∃ before u o, before ++ [u] <+: [c, a, i] ∧ s.DecidedAt c "m" "*" before u o
          ∧ s.toIndex.findMethod c "m" "*" = .ok o)
      ∧ s.toIndex.findMethod c "n" "*" = .ok (.resolvedMethod c n)
      ∧ s.toIndex.findMethod c "n" "" = .ok (.resolvedMethod c n) := by
  intro s c a i n
  have horder : s.methodOrder c = [c, a, i] := methodOrder_overloadedInterface
  have hC : overloadedInterface.find? "C"
      = some { superclass := some "A", interfaces := ["I"] } := rfl
  have hA : overloadedInterface.find? "A"
      = some ⟨.classKind, none, [], [⟨"x", .primitive .long⟩],
          [⟨"m", [.primitive .int]⟩, ⟨"m", [.primitive .long]⟩, ⟨"n", []⟩], []⟩ :=
    rfl
  have hI : overloadedInterface.find? "I"
      = some ⟨.interfaceKind, none, [], [⟨"x", .primitive .int⟩],
          [⟨"m", [.primitive .int]⟩, ⟨"m", []⟩], []⟩ := rfl
  have hp : s.toIndex.findMethod c "p" "*" = .ok (.unresolvedMethod c) := by
    have hnone : ∀ v ∈ [c, a, i], s.methodOutcome? c "p" "*" v = none := by
      simp [methodOutcome?_eq, s, c, a, i, hC, hA, hI, TypeDecl.overloads,
        Outcome.ofOverloads?]
    rw [findMethod_eq, horder, List.findSome?_eq_none_iff.2 hnone]
    rfl
  have hm : s.DecidedAt c "m" "" [c, a] i (.resolvedMethod c ⟨"m", "I", []⟩) := by
    refine ⟨[⟨"m", []⟩], ⟨⟨[], horder⟩, ?_, ⟨_, hI, by decide⟩, by simp⟩, rfl⟩
    intro v hv d hd
    rcases List.mem_cons.1 hv with rfl | hv
    · cases hC.symm.trans hd
      rfl
    · obtain rfl := List.mem_singleton.1 hv
      cases hA.symm.trans hd
      decide
  have hn : s.toIndex.findMethod c "n" "*" = .ok (.resolvedMethod c n) := by
    have hfirst : s.IsFirst (·.overloads "n" "*") (s.methodOrder c) [c] a [⟨"n", []⟩] := by
      refine ⟨⟨[i], horder⟩, ?_, ⟨_, hA, by decide⟩, by simp⟩
      intro v hv d hd
      obtain rfl := List.mem_singleton.1 hv
      cases hC.symm.trans hd
      rfl
    exact findMethod_of_isFirst hfirst rfl
  exact ⟨(anySignature_agrees s c "p").1.1 hp, hm,
    (anySignature_agrees s c "m").2.2.1 "" _ _ _ hm, hn, (anySignature_agrees s c "n").2.2.2 c n hn⟩

end StaticIndex

end Jsni
