import Jsni.Proofs.Index.Agreement

/-!
# Enriched indexes

An index that gains methods, fields and interfaces for types that it holds loses no member that a
reference could find. The outcome may become another one, as the new members may shadow the old or
be further overloads, but a reference that stood for something still does, with the same owner.
-/

namespace Jsni

open Relation

/-! ## Outcomes -/

/-- The reference stands for something, be it several overloads. -/
def Outcome.IsFound (o : Outcome) : Prop :=
  o.isResolved ∨ ∃ t ms, o = .ambiguous t ms

namespace Outcome

variable {o : Outcome} {t : JavaType}

theorem not_isFound_unresolvedMethod : ¬ (unresolvedMethod t).IsFound := by
  simp [IsFound, isResolved]

theorem not_isFound_unresolvedField : ¬ (unresolvedField t).IsFound := by
  simp [IsFound, isResolved]

theorem ChoosesMethod.isFound_iff {resolved : JavaType → Method → Outcome}
    {declares : String → Method → Prop} (h : o.ChoosesMethod resolved t declares)
    (hresolved : ∀ m, (resolved t m).isResolved) : o.IsFound ↔ ∃ n m, declares n m := by
  by_cases ho : o = .unresolvedMethod t
  · exact iff_of_false (ho ▸ not_isFound_unresolvedMethod) (h.unresolved_iff.1 ho)
  · refine iff_of_true ?_ (not_not.1 fun hnone => ho (h.unresolved_iff.2 hnone))
    obtain ⟨n, ⟨m, -, rfl⟩ | ⟨ms, -, -, rfl⟩⟩ := h.found ho
    · exact .inl (hresolved m)
    · exact .inr ⟨t, ms, rfl⟩

theorem ChoosesField.isFound_iff {declares : String → Field → Prop}
    (h : o.ChoosesField t declares) : o.IsFound ↔ ∃ n f, declares n f := by
  by_cases ho : o = .unresolvedField t
  · exact iff_of_false (ho ▸ not_isFound_unresolvedField) (h.unresolved_iff.1 ho)
  · obtain ⟨n, f, hf, rfl⟩ := h.found ho
    exact iff_of_true (.inl rfl) ⟨n, f, hf⟩

end Outcome

/-! ## Enriched declarations -/

/-- A declaration with more interfaces, fields and methods perhaps, and the same otherwise. -/
structure TypeDecl.EnrichedTo (d d' : TypeDecl) : Prop where
  kind : d'.kind = d.kind
  superclass : d'.superclass = d.superclass
  constructors : d'.constructors = d.constructors
  interfaces : d.interfaces ⊆ d'.interfaces
  fields : d.fields ⊆ d'.fields
  methods : d.methods ⊆ d'.methods

namespace TypeDecl

theorem EnrichedTo.refl (d : TypeDecl) : d.EnrichedTo d :=
  ⟨rfl, rfl, rfl, List.Subset.refl _, List.Subset.refl _, List.Subset.refl _⟩

theorem EnrichedTo.trans {d d' d'' : TypeDecl} (h : d.EnrichedTo d') (h' : d'.EnrichedTo d'') :
    d.EnrichedTo d'' where
  kind := h'.kind.trans h.kind
  superclass := h'.superclass.trans h.superclass
  constructors := h'.constructors.trans h.constructors
  interfaces := List.Subset.trans h.interfaces h'.interfaces
  fields := List.Subset.trans h.fields h'.fields
  methods := List.Subset.trans h.methods h'.methods

end TypeDecl

namespace StaticIndex

/-- The edit adds a method, a field or an interface to its subject. -/
inductive Edit.Enriches : Edit → Prop
  | addMethod (name method : String) (parameters : List String) :
    Enriches (.addMethod name method parameters)
  | addField (name field type : String) : Enriches (.addField name field type)
  | addSuperinterface (name interface : String) : Enriches (.addSuperinterface name interface)

theorem Edit.Enriches.enrichedTo {e : Edit} (he : e.Enriches) (d : TypeDecl) :
    d.EnrichedTo (e.change d) := by
  cases he <;> constructor <;> simp [Edit.change]

/-! ## Enriched indexes -/

/-- The index `s'` holds the types of `s` and no others, each of them as in `s` or enriched. -/
structure EnrichedTo (s s' : StaticIndex) : Prop where
  decl : ∀ {n d}, s.find? n = some d → ∃ d', s'.find? n = some d' ∧ d.EnrichedTo d'
  no_other : ∀ {n}, s.find? n = none → s'.find? n = none

variable {s s' s'' : StaticIndex}

theorem EnrichedTo.refl (s : StaticIndex) : s.EnrichedTo s :=
  ⟨fun {_ d} hd => ⟨d, hd, .refl d⟩, id⟩

theorem EnrichedTo.trans (h : s.EnrichedTo s') (h' : s'.EnrichedTo s'') : s.EnrichedTo s'' := by
  refine ⟨?_, fun hn => h'.no_other (h.no_other hn)⟩
  intro n d hd
  obtain ⟨d', hd', hfirst⟩ := h.decl hd
  obtain ⟨d'', hd'', hsecond⟩ := h'.decl hd'
  exact ⟨d'', hd'', hfirst.trans hsecond⟩

theorem enrichedTo_apply {e : Edit} (he : e.Enriches) (hheld : (s.find? e.subject).isSome) :
    s.EnrichedTo (s.apply e) := by
  obtain ⟨d, hd⟩ := Option.isSome_iff_exists.1 hheld
  constructor
  · intro n dn hdn
    by_cases hn : n = e.subject
    · subst hn
      obtain rfl := Option.some.inj (hdn.symm.trans hd)
      have hchanged : (s.apply e).find? e.subject = some (e.change dn) := by
        rw [find?_apply, if_pos rfl, hd, Option.getD_some]
      exact ⟨e.change dn, hchanged, he.enrichedTo dn⟩
    · exact ⟨dn, (find?_apply_of_ne hn).trans hdn, .refl dn⟩
  · intro n hnone
    -- The subject is held, so there is no new type that a class name could stand for instead.
    have hn : n ≠ e.subject := by
      rintro rfl
      cases hd.symm.trans hnone
    exact (find?_apply_of_ne hn).trans hnone

theorem enrichedTo_applyAll {edits : List Edit}
    (hedits : ∀ e ∈ edits, e.Enriches ∧ (s.find? e.subject).isSome) :
    s.EnrichedTo (s.applyAll edits) := by
  induction edits generalizing s with
  | nil => exact .refl s
  | cons e edits ih =>
    obtain ⟨⟨he, hheld⟩, hrest⟩ := List.forall_mem_cons.1 hedits
    have hstep : s.EnrichedTo (s.apply e) := enrichedTo_apply he hheld
    refine hstep.trans (ih fun e' he' => ⟨(hrest e' he').1, ?_⟩)
    -- The step keeps the subjects of the steps to come.
    obtain ⟨d, hd⟩ := Option.isSome_iff_exists.1 (hrest e' he').2
    obtain ⟨d', hd', -⟩ := hstep.decl hd
    exact Option.isSome_iff_exists.2 ⟨d', hd'⟩

/-! ## What is kept -/

theorem EnrichedTo.find?_cases (h : s.EnrichedTo s') (n : String) :
    (s.find? n = none ∧ s'.find? n = none)
      ∨ ∃ d d', s.find? n = some d ∧ s'.find? n = some d' ∧ d.EnrichedTo d' := by
  cases hfind : s.find? n with
  | none => exact .inl ⟨rfl, h.no_other hfind⟩
  | some d =>
    obtain ⟨d', hd', henriched⟩ := h.decl hfind
    exact .inr ⟨d, d', rfl, hd', henriched⟩

theorem EnrichedTo.sameTypes (h : s.EnrichedTo s') : s.SameTypes s' := by
  intro n
  rw [typeOf?_eq, typeOf?_eq]
  obtain ⟨hnone, hnone'⟩ | ⟨d, d', hd, hd', henriched⟩ := h.find?_cases n
  · rw [hnone, hnone']
  · rw [hd, hd', Option.map_some, Option.map_some, henriched.kind]

theorem EnrichedTo.superclass?_eq (h : s.EnrichedTo s') (n : String) :
    s'.superclass? n = s.superclass? n := by
  rw [StaticIndex.superclass?_eq, StaticIndex.superclass?_eq, h.sameTypes.typeOf?_eq]
  obtain ⟨hnone, hnone'⟩ | ⟨d, d', hd, hd', henriched⟩ := h.find?_cases n
  · rw [hnone, hnone']
  · simp only [hd, hd', Option.bind_some, henriched.kind, henriched.superclass]

theorem EnrichedTo.interfacesOf_subset (h : s.EnrichedTo s') (n : String) :
    s.interfacesOf n ⊆ s'.interfacesOf n := by
  rw [interfacesOf_eq, interfacesOf_eq, h.sameTypes.typeOf?_eq]
  obtain ⟨hnone, -⟩ | ⟨d, d', hd, hd', henriched⟩ := h.find?_cases n
  · rw [hnone]
    exact List.nil_subset _
  -- An interface that the index does not hold is left out on both sides.
  · simp only [hd, hd', Option.elim_some]
    exact List.filterMap_subset _ henriched.interfaces

end StaticIndex

/-- A hierarchy with more links reaches more types. -/
theorem Hierarchy.Reaches.mono {h h' : Hierarchy} {a b : String} (hreach : h.Reaches a b)
    (hclasses : ∀ n m, h.Extends n m → h'.Extends n m)
    (hinterfaces : ∀ n m, h.Implements n m → h'.Implements n m) : h'.Reaches a b := by
  obtain ⟨c, hsuper, hinterface⟩ := hreach
  exact ⟨c, ReflTransGen.mono hclasses _ _ hsuper,
    ReflTransGen.mono hinterfaces _ _ hinterface⟩

namespace StaticIndex

variable {s s' : StaticIndex} {t : JavaType} {n name signature : String}

theorem EnrichedTo.reaches (h : s.EnrichedTo s') {a b : String}
    (hreach : s.hierarchy.Reaches a b) : s'.hierarchy.Reaches a b := by
  apply hreach.mono
  · rintro n m ⟨u, hu, rfl⟩
    exact ⟨u, (h.superclass?_eq n).trans hu, rfl⟩
  · rintro n m ⟨u, hu, rfl⟩
    exact ⟨u, h.interfacesOf_subset n hu, rfl⟩

theorem EnrichedTo.inherits (h : s.EnrichedTo s') (hn : s.Inherits t n) : s'.Inherits t n :=
  hn.imp_left h.reaches

theorem EnrichedTo.declaresMethod (h : s.EnrichedTo s') {m : Method}
    (hm : s.DeclaresMethod n name signature m) : s'.DeclaresMethod n name signature m := by
  obtain ⟨d, hd, hmem, hfits⟩ := hm
  obtain ⟨d', hd', henriched⟩ := h.decl hd
  exact ⟨d', hd', henriched.methods hmem, hfits⟩

theorem EnrichedTo.declaresField (h : s.EnrichedTo s') {f : Field}
    (hf : s.DeclaresField n name f) : s'.DeclaresField n name f := by
  obtain ⟨d, hd, hmem, hname⟩ := hf
  obtain ⟨d', hd', henriched⟩ := h.decl hd
  exact ⟨d', hd', henriched.fields hmem, hname⟩

theorem EnrichedTo.declaresConstructor (h : s.EnrichedTo s') {m : Method}
    (hm : s.DeclaresConstructor n signature m) : s'.DeclaresConstructor n signature m := by
  obtain ⟨d, hd, hname, havailable, hfits⟩ := hm
  obtain ⟨d', hd', henriched⟩ := h.decl hd
  refine ⟨d', hd', hname, ?_, hfits⟩
  rwa [henriched.constructors, henriched.kind]

/-! ## References -/

/-- There is something that a reference to the type can stand for. -/
def Offers (s : StaticIndex) (t : JavaType) (r : Reference) : Prop :=
  match r.kind with
  | .classOnly   => True
  | .method      => ∃ n m, s.Inherits t n ∧ s.DeclaresMethod n r.memberName r.signature m
  | .field       => ∃ n f, s.hierarchy.Reaches t.name n ∧ s.DeclaresField n r.memberName f
  | .constructor => ∃ n m, n = t.name ∧ s.DeclaresConstructor n r.signature m

theorem EnrichedTo.offers (h : s.EnrichedTo s') {r : Reference} :
    s.Offers t r → s'.Offers t r := by
  unfold Offers
  cases r.kind with
  | classOnly => exact id
  | method =>
    rintro ⟨n, m, hn, hm⟩
    exact ⟨n, m, h.inherits hn, h.declaresMethod hm⟩
  | field =>
    rintro ⟨n, f, hn, hf⟩
    exact ⟨n, f, h.reaches hn, h.declaresField hf⟩
  | constructor =>
    rintro ⟨n, m, hn, hm⟩
    exact ⟨n, m, hn, h.declaresConstructor hm⟩

theorem Decides.isFound_iff {r : Reference} {o : Outcome} :
    s.Decides t r o → (o.IsFound ↔ s.Offers t r) := by
  unfold Decides Offers
  cases r.kind with
  | classOnly =>
    rintro rfl
    exact iff_of_true (.inl rfl) trivial
  | method => exact fun hchoice => hchoice.isFound_iff fun _ => rfl
  | field => exact Outcome.ChoosesField.isFound_iff
  | constructor => exact fun hchoice => hchoice.isFound_iff fun _ => rfl

theorem EnrichedTo.exists_isFound (h : s.EnrichedTo s') {context : ImportContext} {r : Reference}
    {o : Outcome} (ho : s.toIndex.resolve context r = .ok o) (hfound : o.IsFound) :
    ∃ o', s'.toIndex.resolve context r = .ok o' ∧ o'.IsFound ∧ o'.owner? = o.owner? := by
  obtain ⟨-, ho'⟩ | ⟨-, -, ho'⟩ | ⟨t, p, hnull, htype, hstored, ho', howner, -, hdecides⟩ :=
    s.resolve_cases context r <;> cases ho.symm.trans ho'
  -- References to `null` and to no type have found nothing.
  · simp [Outcome.IsFound, Outcome.isResolved] at hfound
  · simp [Outcome.IsFound, Outcome.isResolved] at hfound
  -- The class name keeps its meaning, for the index holds the same types.
  · have htype' : s'.toIndex.resolveType context r.className = .ok (some t) :=
      (resolveType_congr h.sameTypes context r.className).trans htype
    have hstored' : s'.typeOf? t.name = some t := (h.sameTypes t.name).symm.trans hstored
    obtain ⟨o', hresolve, howner', -, hdecides'⟩ := resolve_of_resolveType hnull htype' hstored'
    have hoffers : s'.Offers t r := h.offers (hdecides.isFound_iff.1 hfound)
    exact ⟨o', hresolve, hdecides'.isFound_iff.2 hoffers, howner'.trans howner.symm⟩

/-- A reference that is resolved or ambiguous is so, with the same owner, after a method, a field or
an interface is added to a type that the index holds. -/
theorem found_apply_of_enriches {e : Edit} (he : e.Enriches)
    (hheld : (s.find? e.subject).isSome) {context : ImportContext} {r : Reference} {o : Outcome}
    (ho : s.toIndex.resolve context r = .ok o) (hfound : o.IsFound) :
    ∃ o', (s.apply e).toIndex.resolve context r = .ok o' ∧ o'.IsFound ∧ o'.owner? = o.owner? :=
  (enrichedTo_apply he hheld).exists_isFound ho hfound

theorem findMethod_mutualInterfaces :
    mutualInterfaces.toIndex.findMethod ⟨"a.I", .interfaceKind⟩ "m" "*"
      = .ok (.ambiguous ⟨"a.I", .interfaceKind⟩
          [⟨"m", "a.J", [.primitive .int]⟩, ⟨"m", "a.J", [.primitive .long]⟩]) := by
  cbv

theorem found_apply_of_enriches_mutual :
    let s := mutualInterfaces
    let r : Reference := ⟨0, 9, "I", "m", .method, "*", "a.I#f"⟩
    let t : JavaType := ⟨"a.I", .interfaceKind⟩
    let o : Outcome :=
      .ambiguous t [⟨"m", "a.J", [.primitive .int]⟩, ⟨"m", "a.J", [.primitive .long]⟩]
    let context : ImportContext := { package := some "a" }
    s.toIndex.resolve context r = .ok o ∧ o.IsFound
      ∧ (∃ o', (s.apply (.addMethod "a.I" "m" [])).toIndex.resolve context r = .ok o'
          ∧ o'.IsFound ∧ o'.owner? = some t)
      ∧ ∃ o', (s.apply (.addSuperinterface "a.J" "a.J")).toIndex.resolve context r = .ok o'
          ∧ o'.IsFound ∧ o'.owner? = some t := by
  intro s r t o context
  have htype : s.toIndex.resolveType context r.className = .ok (some t) := by cbv
  have ho : s.toIndex.resolve context r = .ok o := by
    have hnull : r.isNull = false := by decide
    unfold TypeIndex.resolve
    simp only [hnull, htype, bind, Except.bind]
    exact findMethod_mutualInterfaces
  have hfound : o.IsFound := .inr ⟨t, _, rfl⟩
  have hI : (mutualInterfaces.find? "a.I").isSome := by cbv
  have hJ : (mutualInterfaces.find? "a.J").isSome := by cbv
  exact ⟨ho, hfound, found_apply_of_enriches (.addMethod ..) hI ho hfound,
    found_apply_of_enriches (.addSuperinterface ..) hJ ho hfound⟩

/-- It is still so after any number of such steps. -/
theorem found_applyAll_of_enriches {edits : List Edit}
    (hedits : ∀ e ∈ edits, e.Enriches ∧ (s.find? e.subject).isSome) {context : ImportContext}
    {r : Reference} {o : Outcome} (ho : s.toIndex.resolve context r = .ok o)
    (hfound : o.IsFound) :
    ∃ o', (s.applyAll edits).toIndex.resolve context r = .ok o' ∧ o'.IsFound ∧
      o'.owner? = o.owner? :=
  (enrichedTo_applyAll hedits).exists_isFound ho hfound

end StaticIndex

end Jsni
