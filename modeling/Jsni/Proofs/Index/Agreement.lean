import Jsni.Proofs.Index.Supertypes
import Jsni.Proofs.Resolution.Outcome

/-!
# Indexes that agree above a type

What a look-up in a type gives depends on the types above it alone. Static indexes that hold the
same entries for these walk them alike and find the same members, whatever else they hold.
-/

namespace Jsni

theorem findSome?_congr {f g : α → Option β} {xs : List α} (h : ∀ x ∈ xs, f x = g x) :
    xs.findSome? f = xs.findSome? g := by
  rw [← List.head?_filterMap, ← List.head?_filterMap, List.filterMap_congr h]

namespace TypeIndex

variable {idx idx' : TypeIndex} {h : Hierarchy}

/-! ## Walks -/

theorem superclassChain_congr {seen : List String} {t : JavaType}
    (hlinks : ∀ u ∈ t :: (idx.superclassChain seen t).types, idx'.superclass u = idx.superclass u) :
    idx'.superclassChain seen t = idx.superclassChain seen t := by
  fun_induction superclassChain idx seen t with
  | case1 seen t e heq =>
    exact superclassChain_of_error ((hlinks t List.mem_cons_self).trans heq)
  | case2 seen t heq =>
    exact superclassChain_of_none ((hlinks t List.mem_cons_self).trans heq)
  | case3 seen t s heq hs =>
    exact superclassChain_of_seen ((hlinks t List.mem_cons_self).trans heq) hs
  | case4 seen t s heq hs ih =>
    rw [superclassChain_of_new ((hlinks t List.mem_cons_self).trans heq) hs,
      ih fun u hu => hlinks u (List.mem_cons_of_mem _ hu)]

theorem directInterfaces_congr {seen : List String} {ts : List JavaType}
    (hlinks : ∀ t ∈ ts, idx'.interfaces t = idx.interfaces t) :
    idx'.directInterfaces seen ts = idx.directInterfaces seen ts := by
  induction ts generalizing seen with
  | nil => rfl
  | cons t ts ih =>
    have hrest := fun seen => @ih seen fun u hu => hlinks u (List.mem_cons_of_mem _ hu)
    simp only [directInterfaces, hlinks t List.mem_cons_self, hrest]

theorem interfaceClosure_congr (hf : idx.Follows h) {seen : List String} {queue : List JavaType}
    (hlinks : ∀ u ∈ (idx.interfaceClosure seen queue).types, idx'.interfaces u = idx.interfaces u) :
    idx'.interfaceClosure seen queue = idx.interfaceClosure seen queue := by
  fun_induction interfaceClosure idx seen queue with
  | case1 => exact interfaceClosure_nil ..
  | case2 seen i queue e heq => simp [hf.interfaces] at heq
  | case3 seen i queue is heq new ih =>
    rw [interfaceClosure_cons ((hlinks i List.mem_cons_self).trans heq)]
    exact congrArg (Walk.cons i) (ih fun u hu => hlinks u (List.mem_cons_of_mem _ hu))

theorem interfaceWalk_congr (hf : idx.Follows h) {ts : List JavaType}
    (hlinks : ∀ u ∈ ts ++ (idx.interfaceWalk ts).types, idx'.interfaces u = idx.interfaces u) :
    idx'.interfaceWalk ts = idx.interfaceWalk ts := by
  have hdirect : idx'.directInterfaces (ts.map (·.name)) ts
      = idx.directInterfaces (ts.map (·.name)) ts :=
    directInterfaces_congr fun u hu => hlinks u (List.mem_append_left _ hu)
  unfold interfaceWalk at hlinks ⊢
  simp only [hdirect]
  cases hqueue : idx.directInterfaces (ts.map (·.name)) ts with
  | error e => rfl
  | ok queue =>
    simp only [hqueue] at hlinks
    exact interfaceClosure_congr hf fun u hu => hlinks u (List.mem_append_right _ hu)

/-- A walk depends on the links of the types it meets alone. -/
theorem supertypes_congr (hf : idx.Follows h) {t : JavaType}
    (hsuper : ∀ u ∈ t :: (idx.supertypes t).types, idx'.superclass u = idx.superclass u)
    (hinterfaces : ∀ u ∈ t :: (idx.supertypes t).types, idx'.interfaces u = idx.interfaces u) :
    idx'.supertypes t = idx.supertypes t := by
  rw [cons_supertypes_types (failure_superclassChain hf _ t)] at hsuper hinterfaces
  have hchain : idx'.superclassChain [t.name] t = idx.superclassChain [t.name] t :=
    superclassChain_congr fun u hu => hsuper u (List.mem_append_left _ hu)
  have hclasses : idx'.classes t = idx.classes t :=
    congrArg (fun chain : Walk => t :: chain.types) hchain
  rw [supertypes_eq_andThen, supertypes_eq_andThen, hchain, hclasses,
    interfaceWalk_congr hf hinterfaces]

end TypeIndex

/-! ## Look-ups -/

/-- A declaration without its members. -/
def TypeDecl.header (d : TypeDecl) : TypeDecl :=
  { d with fields := [], methods := [], constructors := [] }

namespace StaticIndex

/-- The indexes hold types of the same names and kinds. -/
def SameTypes (s s' : StaticIndex) : Prop :=
  ∀ n, s.typeOf? n = s'.typeOf? n

/-- The indexes hold the same types with the same links, though maybe other members. -/
def SameHeaders (s s' : StaticIndex) : Prop :=
  ∀ n, (s.find? n).map TypeDecl.header = (s'.find? n).map TypeDecl.header

/-- The indexes hold the same entries for the types that a type inherits from, itself included. -/
def AgreesAbove (s s' : StaticIndex) (t : JavaType) : Prop :=
  ∀ n, s.Inherits t n → s.find? n = s'.find? n

variable {s s' : StaticIndex} {n : String}

theorem SameTypes.typeOf?_eq (htypes : s.SameTypes s') : s'.typeOf? = s.typeOf? :=
  funext fun n => (htypes n).symm

theorem SameHeaders.sameTypes (hheaders : s.SameHeaders s') : s.SameTypes s' := by
  intro n
  rw [typeOf?_eq, typeOf?_eq]
  have htype := congrArg (Option.map fun d => JavaType.mk n d.kind) (hheaders n)
  rwa [Option.map_map, Option.map_map] at htype

theorem superclass?_congr (htypes : s.SameTypes s')
    (hn : (s.find? n).map TypeDecl.header = (s'.find? n).map TypeDecl.header) :
    s'.superclass? n = s.superclass? n := by
  have hheader : ∀ i : StaticIndex, i.typeOf? = s.typeOf? → i.superclass? n
      = ((i.find? n).map TypeDecl.header).bind fun d => d.superclass.elim
          (if (d.kind = .classKind ∨ d.kind = .enumKind) ∧ n ≠ JavaType.objectName then
            s.typeOf? JavaType.objectName else none) s.typeOf? := by
    intro i hi
    rw [superclass?_eq, hi]
    cases i.find? n with
    | none => rfl
    | some d => cases d with | mk kind superclass => cases superclass <;> rfl
  rw [hheader s' htypes.typeOf?_eq, hheader s rfl, hn]

theorem interfacesOf_congr (htypes : s.SameTypes s')
    (hn : (s.find? n).map TypeDecl.header = (s'.find? n).map TypeDecl.header) :
    s'.interfacesOf n = s.interfacesOf n := by
  have hheader : ∀ i : StaticIndex, i.typeOf? = s.typeOf? → i.interfacesOf n
      = ((i.find? n).map TypeDecl.header).elim [] fun d => d.interfaces.filterMap s.typeOf? := by
    intro i hi
    rw [interfacesOf_eq, hi]
    cases i.find? n <;> rfl
  rw [hheader s' htypes.typeOf?_eq, hheader s rfl, hn]

theorem SameHeaders.hierarchy_eq (hheaders : s.SameHeaders s') : s'.hierarchy = s.hierarchy := by
  have hclasses : s'.superclass? = s.superclass? :=
    funext fun n => superclass?_congr hheaders.sameTypes (hheaders n)
  have hlisted : s'.interfacesOf = s.interfacesOf :=
    funext fun n => interfacesOf_congr hheaders.sameTypes (hheaders n)
  rw [hierarchy, hierarchy, hclasses, hlisted]

theorem methodOutcome?_congr {u : JavaType} (hu : s.find? u.name = s'.find? u.name) (t : JavaType)
    (name signature : String) :
    s'.methodOutcome? t name signature u = s.methodOutcome? t name signature u := by
  simp only [methodOutcome?, methodsOf_eq, hu]

theorem fieldOutcome?_congr {u : JavaType} (hu : s.find? u.name = s'.find? u.name) (t : JavaType)
    (name : String) : s'.fieldOutcome? t name u = s.fieldOutcome? t name u := by
  simp only [fieldOutcome?, fieldsOf_eq, hu]

variable {t : JavaType}

theorem AgreesAbove.find?_eq (hagree : s.AgreesAbove s' t) {u : JavaType}
    (hu : u ∈ s.methodOrder t) : s.find? u.name = s'.find? u.name :=
  hagree _ (inherits_of_mem_methodOrder hu)

theorem fieldOrder_congr (htypes : s.SameTypes s') (hagree : s.AgreesAbove s' t) :
    s'.fieldOrder t = s.fieldOrder t := by
  have hentry : ∀ u ∈ t :: (s.toIndex.supertypes t).types,
      (s.find? u.name).map TypeDecl.header = (s'.find? u.name).map TypeDecl.header :=
    fun u hu => congrArg _ (hagree.find?_eq (List.mem_append_left _ hu))
  refine congrArg (fun walk : Walk => t :: walk.types) (TypeIndex.supertypes_congr s.follows ?_ ?_)
  · exact fun u hu => congrArg Except.ok (superclass?_congr htypes (hentry u hu))
  · exact fun u hu => congrArg Except.ok (interfacesOf_congr htypes (hentry u hu))

theorem methodOrder_congr (htypes : s.SameTypes s') (hagree : s.AgreesAbove s' t) :
    s'.methodOrder t = s.methodOrder t := by
  rw [methodOrder, methodOrder, fieldOrder_congr htypes hagree, htypes]

theorem findMethod_congr (htypes : s.SameTypes s') (hagree : s.AgreesAbove s' t)
    (name signature : String) :
    s'.toIndex.findMethod t name signature = s.toIndex.findMethod t name signature := by
  rw [findMethod_eq, findMethod_eq, methodOrder_congr htypes hagree,
    findSome?_congr fun u hu => methodOutcome?_congr (hagree.find?_eq hu) t name signature]

theorem findField_congr (htypes : s.SameTypes s') (hagree : s.AgreesAbove s' t) (name : String) :
    s'.toIndex.findField t name = s.toIndex.findField t name := by
  rw [findField_eq, findField_eq, fieldOrder_congr htypes hagree,
    findSome?_congr fun u hu =>
      fieldOutcome?_congr (hagree.find?_eq (List.mem_append_left _ hu)) t name]

theorem findConstructor_congr (hagree : s.AgreesAbove s' t) (signature : String) :
    s'.toIndex.findConstructor t signature = s.toIndex.findConstructor t signature := by
  have ht : s.find? t.name = s'.find? t.name :=
    hagree.find?_eq (List.mem_append_left _ List.mem_cons_self)
  simp only [findConstructor_eq, constructorsOf_eq, ht]

/-! ## References -/

theorem resolveType_congr (htypes : s.SameTypes s') (context : ImportContext)
    (className : String) :
    s'.toIndex.resolveType context className = s.toIndex.resolveType context className := by
  simp only [TypeIndex.resolveType, resolveName_eq, htypes.typeOf?_eq]

/-- How a reference can end: it is about `null`, its class name stands for no type, or it has an
owner and an outcome that this type and what is above it decide. -/
theorem resolve_cases (s : StaticIndex) (context : ImportContext) (r : Reference) :
    (r.className = Reference.nullName ∧ s.toIndex.resolve context r = .ok .ignoredNull)
      ∨ (r.isNull = false ∧ s.toIndex.resolveType context r.className = .ok none
        ∧ s.toIndex.resolve context r = .ok .unresolvedType)
      ∨ ∃ t o, r.isNull = false ∧ s.toIndex.resolveType context r.className = .ok (some t)
        ∧ s.typeOf? t.name = some t ∧ s.toIndex.resolve context r = .ok o
        ∧ o.owner? = some t ∧ o.FitsKind r.kind ∧ s.Decides t r o := by
  by_cases hr : r.className = Reference.nullName
  · exact .inl ⟨hr, s.toIndex.resolve_of_null context hr⟩
  · have hnull : r.isNull = false := by simpa [Reference.isNull] using hr
    obtain ⟨found, hfound, hstored⟩ := s.resolveType_eq_ok context r.className
    cases found with
    | none =>
      refine .inr (.inl ⟨hnull, hfound, ?_⟩)
      unfold TypeIndex.resolve
      simp only [hnull, hfound]
      rfl
    | some t =>
      obtain ⟨o, ho, howner⟩ := resolve_of_resolveType hnull hfound (hstored t rfl)
      exact .inr (.inr ⟨t, o, hnull, hfound, hstored t rfl, ho, howner⟩)

theorem exists_resolve (s : StaticIndex) (context : ImportContext) (r : Reference) :
    ∃ o, s.toIndex.resolve context r = .ok o := by
  obtain ⟨-, ho⟩ | ⟨-, -, ho⟩ | ⟨t, o, -, -, -, ho, -⟩ := s.resolve_cases context r
  · exact ⟨_, ho⟩
  · exact ⟨_, ho⟩
  · exact ⟨o, ho⟩

/-- An owner is a type of the index, and what it inherits decides the outcome. -/
theorem decides_of_owner? {context : ImportContext} {r : Reference} {o : Outcome} {t : JavaType}
    (ho : s.toIndex.resolve context r = .ok o) (ht : o.owner? = some t) :
    s.typeOf? t.name = some t ∧ o.FitsKind r.kind ∧ s.Decides t r o := by
  obtain ⟨-, ho'⟩ | ⟨-, -, ho'⟩ | ⟨u, o', -, -, hstored, ho', howner, hdecided⟩ :=
    s.resolve_cases context r <;> cases ho.symm.trans ho'
  · cases ht
  · cases ht
  · cases ht.symm.trans howner
    exact ⟨hstored, hdecided⟩

/-- A reference has the same outcome where the indexes agree above its owner. -/
theorem resolve_congr (htypes : s.SameTypes s') {context : ImportContext} {r : Reference}
    {o : Outcome} (ho : s.toIndex.resolve context r = .ok o)
    (hagree : ∀ t, o.owner? = some t → s.AgreesAbove s' t) :
    s'.toIndex.resolve context r = .ok o := by
  have hclass := resolveType_congr htypes context r.className
  rw [← ho]
  obtain ⟨hnull, -⟩ | ⟨hnull, hfound, -⟩ | ⟨t, o', hnull, hfound, -, ho', howner, -⟩ :=
    s.resolve_cases context r
  · rw [TypeIndex.resolve_of_null _ context hnull, TypeIndex.resolve_of_null _ context hnull]
  · unfold TypeIndex.resolve
    simp only [hnull, hclass, hfound]
    rfl
  · cases ho.symm.trans ho'
    have habove : s.AgreesAbove s' t := hagree t howner
    unfold TypeIndex.resolve
    simp only [hnull, hclass, hfound, bind, Except.bind]
    cases r.kind with
    | classOnly => rfl
    | constructor => exact findConstructor_congr habove r.signature
    | method => exact findMethod_congr htypes habove r.memberName r.signature
    | field => exact findField_congr htypes habove r.memberName

/-! ## Edits -/

/-- What an edit makes of the entry stored for its subject, if there is one. All but insertions
work on the entry that is there, which keeps the name that it has. -/
def Edit.revise (e : Edit) (stored : Option TypeEntry) : TypeEntry :=
  match e with
  | insertEntry entry => entry
  | e =>
    let entry := stored.getD ⟨e.subject, {}⟩
    { entry with decl := e.change entry.decl }

theorem stored?_apply (s : StaticIndex) (e : Edit) (n : String) :
    (s.apply e).stored? n
      = if n = e.subject then some (e.revise (s.stored? n)) else s.stored? n := by
  have hinsert : (s.apply e).table
      = s.table.insert e.subject (e.revise (s.stored? e.subject)) := by
    cases e <;> rfl
  rw [stored?, hinsert, EntryTable.getElem?_insert_eq]
  split
  · rename_i hn
    rw [hn]
  · rfl

theorem Edit.decl_revise (e : Edit) (stored : Option TypeEntry) :
    (e.revise stored).decl = e.change ((stored.map (·.decl)).getD {}) := by
  cases e <;> cases stored <;> rfl

theorem find?_apply (s : StaticIndex) (e : Edit) (n : String) :
    (s.apply e).find? n
      = if n = e.subject then some (e.change ((s.find? e.subject).getD {})) else s.find? n := by
  rw [find?, stored?_apply]
  split
  · rename_i hn
    rw [Option.map_some, Edit.decl_revise, hn, find?]
  · rfl

/-- An edit of a type that the index holds keeps its types, unless it changes the kind. -/
theorem sameTypes_apply {e : Edit} {d : TypeDecl} (hd : s.find? e.subject = some d)
    (hkind : (e.change d).kind = d.kind) : s.SameTypes (s.apply e) := by
  intro n
  rw [typeOf?_eq, typeOf?_eq, find?_apply, hd]
  split
  · rename_i hn
    rw [hn, hd, Option.map_some, Option.map_some, Option.getD_some, hkind]
  · rfl

/-- An edit of the members of a type that the index holds keeps all headers. -/
theorem sameHeaders_apply {e : Edit} {d : TypeDecl} (hd : s.find? e.subject = some d)
    (hheader : (e.change d).header = d.header) : s.SameHeaders (s.apply e) := by
  intro n
  rw [find?_apply, hd]
  split
  · rename_i hn
    rw [hn, hd, Option.map_some, Option.map_some, Option.getD_some, hheader]
  · rfl

theorem find?_apply_of_ne {e : Edit} (hn : n ≠ e.subject) : (s.apply e).find? n = s.find? n := by
  rw [find?_apply, if_neg hn]

theorem agreesAbove_apply {e : Edit} (hsubject : ¬ s.Inherits t e.subject) :
    s.AgreesAbove (s.apply e) t := by
  intro n hn
  refine (find?_apply_of_ne ?_).symm
  rintro rfl
  exact hsubject hn

end StaticIndex

end Jsni
