import Std.Data.TreeMap
import Jsni.Erasure.Spelling
import Jsni.Index.Basic

/-!
# Static type indexes

An index held in memory: a table of entries, each stored under the name that it has. It is built by
edits, each of which changes the entry of one type, and never fails to answer.
-/

namespace Jsni

/-! ## Declarations -/

structure FieldDecl where
  name : String
  type : ErasedType
deriving DecidableEq, Repr, Inhabited

structure MethodDecl where
  name : String
  parameters : List ErasedType
deriving DecidableEq, Repr, Inhabited

/-- What a type declares. A superclass is there only if it is written. -/
structure TypeDecl where
  kind : TypeKind := .classKind
  superclass : Option String := none
  interfaces : List String := []
  fields : List FieldDecl := []
  methods : List MethodDecl := []
  constructors : List (List ErasedType) := []
deriving DecidableEq, Repr, Inhabited

/-- A declaration with the name of its type. -/
structure TypeEntry where
  name : String
  decl : TypeDecl
deriving DecidableEq, Repr, Inhabited

/-! ## Edits -/

namespace StaticIndex

/-- One step of building an index. Types of members are in source spelling. -/
inductive Edit where
  | addClass (name : String) (superclass : Option String)
  | addInterface (name : String) (extended : List String)
  | addSuperinterface (name interface : String)
  | addMethod (name method : String) (parameters : List String)
  | addConstructor (name : String) (parameters : List String)
  | addField (name field type : String)
  | insertEntry (entry : TypeEntry)
deriving DecidableEq, Repr

/-- The type that an edit is about. -/
def Edit.subject : Edit → String
  | addClass name _          => name
  | addInterface name _      => name
  | addSuperinterface name _ => name
  | addMethod name _ _       => name
  | addConstructor name _    => name
  | addField name _ _        => name
  | insertEntry entry        => entry.name

/-- What an edit does to the declaration of its subject. -/
def Edit.change : Edit → TypeDecl → TypeDecl
  | addClass _ superclass, d         => { d with kind := .classKind, superclass }
  | addInterface _ extended, d       => { d with kind := .interfaceKind, interfaces := extended }
  | addSuperinterface _ interface, d => { d with interfaces := d.interfaces ++ [interface] }
  | addMethod _ name parameters, d   =>
    { d with methods := d.methods ++ [⟨name, parameters.map .ofSpelling⟩] }
  | addConstructor _ parameters, d   =>
    { d with constructors := d.constructors ++ [parameters.map .ofSpelling] }
  | addField _ name type, d          =>
    { d with fields := d.fields ++ [⟨name, .ofSpelling type⟩] }
  | insertEntry entry, _             => entry.decl

end StaticIndex

/-! ## Tables of entries -/

/-- Entries by the names that they are stored under. -/
abbrev EntryTable := Std.TreeMap String TypeEntry

namespace EntryTable

open StaticIndex (Edit)

/-- Store an entry under its name, in place of any other there. -/
def store (t : EntryTable) (entry : TypeEntry) : EntryTable :=
  t.insert entry.name entry

/-- Change the declaration of the entry under a name. A type not known yet starts as a class without
members. -/
def update (t : EntryTable) (name : String) (change : TypeDecl → TypeDecl) : EntryTable :=
  let entry := t[name]?.getD ⟨name, {}⟩
  t.insert name { entry with decl := change entry.decl }

def apply (t : EntryTable) : Edit → EntryTable
  | .insertEntry entry => t.store entry
  | e                  => t.update e.subject e.change

def ofEntries (entries : List TypeEntry) : EntryTable :=
  entries.foldl store ∅

theorem getElem?_insert_eq (t : EntryTable) (name : String) (entry : TypeEntry) (n : String) :
    (t.insert name entry)[n]? = if n = name then some entry else t[n]? := by
  simp [Std.TreeMap.getElem?_insert, eq_comm (a := n)]

/-- Every entry has the name that it is stored under. -/
def IsKeyed (t : EntryTable) : Prop :=
  ∀ (name : String) (entry : TypeEntry), t[name]? = some entry → entry.name = name

variable {t : EntryTable}

theorem isKeyed_empty : IsKeyed ∅ := by
  intro name entry hentry
  simp at hentry

theorem IsKeyed.insert (ht : t.IsKeyed) {name : String} {entry : TypeEntry}
    (hname : entry.name = name) : IsKeyed (t.insert name entry) := by
  intro n stored hstored
  rw [getElem?_insert_eq] at hstored
  split at hstored
  · rename_i hn
    cases hstored
    exact hname.trans hn.symm
  · exact ht n stored hstored

theorem IsKeyed.store (ht : t.IsKeyed) (entry : TypeEntry) : (t.store entry).IsKeyed :=
  ht.insert rfl

theorem IsKeyed.update (ht : t.IsKeyed) (name : String) (change : TypeDecl → TypeDecl) :
    (t.update name change).IsKeyed := by
  refine ht.insert ?_
  cases hentry : t[name]? with
  | none => rfl
  | some entry => exact ht name entry hentry

theorem IsKeyed.apply (ht : t.IsKeyed) (e : Edit) : (t.apply e).IsKeyed := by
  cases e with
  | insertEntry entry => exact ht.store entry
  | _ => exact ht.update _ _

theorem isKeyed_ofEntries (entries : List TypeEntry) : (ofEntries entries).IsKeyed := by
  have hrun : ∀ t : EntryTable, t.IsKeyed → IsKeyed (entries.foldl EntryTable.store t) := by
    induction entries with
    | nil => exact fun t ht => ht
    | cons entry entries ih => exact fun t ht => ih (t.store entry) (ht.store entry)
  exact hrun ∅ isKeyed_empty

end EntryTable

/-! ## Indexes -/

/-- A table of entries in which each has the name that it is stored under. -/
structure StaticIndex where
  table : EntryTable
  keyed : table.IsKeyed

namespace StaticIndex

def empty : StaticIndex :=
  ⟨∅, EntryTable.isKeyed_empty⟩

def size (s : StaticIndex) : Nat :=
  s.table.size

/-- The entry of a type. -/
def stored? (s : StaticIndex) (name : String) : Option TypeEntry :=
  s.table[name]?

/-- The declaration of a type. -/
def find? (s : StaticIndex) (name : String) : Option TypeDecl :=
  (s.stored? name).map (·.decl)

def ofEntries (entries : List TypeEntry) : StaticIndex :=
  ⟨.ofEntries entries, EntryTable.isKeyed_ofEntries entries⟩

def apply (s : StaticIndex) (e : Edit) : StaticIndex :=
  ⟨s.table.apply e, s.keyed.apply e⟩

def applyAll (s : StaticIndex) (edits : List Edit) : StaticIndex :=
  edits.foldl apply s

theorem name_of_stored? {s : StaticIndex} {name : String} {entry : TypeEntry}
    (hentry : s.stored? name = some entry) : entry.name = name :=
  s.keyed name entry hentry

theorem stored?_eq (s : StaticIndex) (name : String) :
    s.stored? name = (s.find? name).map (⟨name, ·⟩) := by
  unfold find?
  cases hentry : s.stored? name with
  | none => rfl
  | some entry =>
    cases name_of_stored? hentry
    rfl

/-! ## Answers -/

def typeOf? (s : StaticIndex) (name : String) : Option JavaType :=
  (s.stored? name).map fun e => ⟨e.name, e.decl.kind⟩

theorem typeOf?_eq (s : StaticIndex) (name : String) :
    s.typeOf? name = (s.find? name).map fun d => ⟨name, d.kind⟩ := by
  rw [typeOf?, stored?_eq, Option.map_map]
  rfl

/-- The written superclass, or else the root class for classes and enums other than it. Only types
of the index count. -/
def superclass? (s : StaticIndex) (name : String) : Option JavaType := do
  let e ← s.stored? name
  match e.decl.superclass with
  | some superclass => s.typeOf? superclass
  | none =>
    if (e.decl.kind = .classKind ∨ e.decl.kind = .enumKind) ∧ e.name ≠ JavaType.objectName then
      s.typeOf? JavaType.objectName
    else none

theorem superclass?_eq (s : StaticIndex) (name : String) :
    s.superclass? name = (s.find? name).bind fun d =>
      match d.superclass with
      | some superclass => s.typeOf? superclass
      | none =>
        if (d.kind = .classKind ∨ d.kind = .enumKind) ∧ name ≠ JavaType.objectName then
          s.typeOf? JavaType.objectName
        else none := by
  unfold superclass?
  rw [stored?_eq]
  cases s.find? name <;> rfl

def interfacesOf (s : StaticIndex) (name : String) : List JavaType :=
  match s.stored? name with
  | none   => []
  | some e => e.decl.interfaces.filterMap s.typeOf?

def constructorsOf (s : StaticIndex) (name : String) : List Method :=
  match s.stored? name with
  | none   => []
  | some e => e.decl.constructors.map (.constructor e.name)

def methodsOf (s : StaticIndex) (name method : String) : List Method :=
  match s.stored? name with
  | none   => []
  | some e =>
    (e.decl.methods.filter (·.name = method)).map fun m => ⟨m.name, e.name, m.parameters⟩

def fieldsOf (s : StaticIndex) (name field : String) : List Field :=
  match s.stored? name with
  | none   => []
  | some e => (e.decl.fields.filter (·.name = field)).map fun f => ⟨f.name, e.name, f.type⟩

section Members

variable (s : StaticIndex) (name member : String)

theorem interfacesOf_eq :
    s.interfacesOf name = (s.find? name).elim [] (·.interfaces.filterMap s.typeOf?) := by
  rw [interfacesOf, stored?_eq]
  cases s.find? name <;> rfl

theorem constructorsOf_eq :
    s.constructorsOf name = (s.find? name).elim [] (·.constructors.map (.constructor name)) := by
  rw [constructorsOf, stored?_eq]
  cases s.find? name <;> rfl

theorem methodsOf_eq :
    s.methodsOf name member = (s.find? name).elim [] fun d =>
      (d.methods.filter (·.name = member)).map fun m => ⟨m.name, name, m.parameters⟩ := by
  rw [methodsOf, stored?_eq]
  cases s.find? name <;> rfl

theorem fieldsOf_eq :
    s.fieldsOf name member = (s.find? name).elim [] fun d =>
      (d.fields.filter (·.name = member)).map fun f => ⟨f.name, name, f.type⟩ := by
  rw [fieldsOf, stored?_eq]
  cases s.find? name <;> rfl

end Members

def names (s : StaticIndex) : List String :=
  s.table.keys

theorem mem_names_iff {s : StaticIndex} {name : String} :
    name ∈ s.names ↔ (s.find? name).isSome := by
  simp [names, find?, stored?]

theorem mem_names_of_typeOf? {s : StaticIndex} {name : String} {t : JavaType}
    (h : s.typeOf? name = some t) : t.name ∈ s.names := by
  rw [typeOf?_eq] at h
  obtain ⟨d, hd, rfl⟩ := Option.map_eq_some_iff.1 h
  simp [mem_names_iff, hd]

theorem mem_names_of_superclass? {s : StaticIndex} {name : String} {t : JavaType}
    (h : s.superclass? name = some t) : t.name ∈ s.names := by
  unfold superclass? at h
  obtain ⟨e, _, h⟩ := Option.bind_eq_some_iff.1 h
  split at h
  · exact mem_names_of_typeOf? h
  · split at h
    · exact mem_names_of_typeOf? h
    · simp at h

theorem mem_names_of_mem_interfacesOf {s : StaticIndex} {name : String} {t : JavaType}
    (h : t ∈ s.interfacesOf name) : t.name ∈ s.names := by
  unfold interfacesOf at h
  split at h
  · simp at h
  · obtain ⟨_, _, h⟩ := List.mem_filterMap.1 h
    exact mem_names_of_typeOf? h

/-- The index that a static index is. It never fails. -/
def toIndex (s : StaticIndex) : TypeIndex where
  typeNames := s.names
  findType name := .ok (s.typeOf? name)
  superclass t := .ok (s.superclass? t.name)
  interfaces t := .ok (s.interfacesOf t.name)
  constructors t := .ok (s.constructorsOf t.name)
  methods t name := .ok (s.methodsOf t.name name)
  fields t name := .ok (s.fieldsOf t.name name)
  superclass_known h := mem_names_of_superclass? (Except.ok.inj h)
  interfaces_known h := by
    cases Except.ok.inj h
    exact fun _ hi => mem_names_of_mem_interfacesOf hi

end StaticIndex

end Jsni
