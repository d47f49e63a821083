import Jsni.Index.Static
import Jsni.Json.Basic
import Jsni.Json.Decode

/-!
# Index files

Type entries as JSON: a record per type with its name, kind, superclass, interfaces, fields,
methods and constructors, in this order. Types of members are descriptors. All but the name may be
left out, also the parameters of methods and constructors.
-/

namespace Jsni

open Json (Decoder ReadError)

/-! ## Reading -/

section Reading

open Json.Decode

def ErasedType.decode : Decoder ErasedType := fun d => do
  match ErasedType.read (← string d) with
  | .ok t    => return t
  | .error e => throw (.data (.other e.message))

def TypeKind.decode : Decoder TypeKind :=
  variant TypeKind.ofKeyword? (TypeKind.all.map TypeKind.keyword)

structure PartialField where
  name : Option String := none
  type : Option ErasedType := none

def FieldDecl.format : RecordFormat PartialField FieldDecl where
  expected := "struct FieldEntry"
  start := {}
  member known
    | "name", d => return { known with name := ← once "name" known.name string d }
    | "type", d => return { known with type := ← once "type" known.type ErasedType.decode d }
    | _,      d => ignored known d
  finish known := return ⟨← required "name" known.name, ← required "type" known.type⟩
  fields := do
    let expected := "struct FieldEntry with 2 elements"
    return ⟨← nextField 0 expected string, ← nextField 1 expected ErasedType.decode⟩

structure PartialMethod where
  name : Option String := none
  parameters : Option (List ErasedType) := none

def MethodDecl.format : RecordFormat PartialMethod MethodDecl where
  expected := "struct MethodEntry"
  start := {}
  member known
    | "name",   d => return { known with name := ← once "name" known.name string d }
    | "params", d =>
      return { known with
        parameters := ← once "params" known.parameters (list ErasedType.decode) d }
    | _,        d => ignored known d
  finish known := return ⟨← required "name" known.name, known.parameters.getD []⟩
  fields := do
    let name ← nextField 0 "struct MethodEntry with 2 elements" string
    return ⟨name, (← nextField? (list ErasedType.decode)).getD []⟩

def constructorFormat : RecordFormat (Option (List ErasedType)) (List ErasedType) where
  expected := "struct ConstructorEntry"
  start := none
  member known
    | "params", d => once "params" known (list ErasedType.decode) d
    | _,        d => ignored known d
  finish known := return known.getD []
  fields := return (← nextField? (list ErasedType.decode)).getD []

structure PartialEntry where
  name : Option String := none
  kind : Option TypeKind := none
  superclass : Option (Option String) := none
  interfaces : Option (List String) := none
  fields : Option (List FieldDecl) := none
  methods : Option (List MethodDecl) := none
  constructors : Option (List (List ErasedType)) := none

/-- The declaration of what is known, with defaults for the rest. -/
def PartialEntry.decl (known : PartialEntry) : TypeDecl where
  kind := known.kind.getD .classKind
  superclass := known.superclass.getD none
  interfaces := known.interfaces.getD []
  fields := known.fields.getD []
  methods := known.methods.getD []
  constructors := known.constructors.getD []

def TypeEntry.format : RecordFormat PartialEntry TypeEntry where
  expected := "struct TypeEntry"
  start := {}
  member known
    | "fqn",          d => return { known with name := ← once "fqn" known.name string d }
    | "kind",         d =>
      return { known with kind := ← once "kind" known.kind TypeKind.decode d }
    | "superclass",   d =>
      return { known with superclass := ← once "superclass" known.superclass (option string) d }
    | "interfaces",   d =>
      return { known with interfaces := ← once "interfaces" known.interfaces (list string) d }
    | "fields",       d =>
      return { known with
        fields := ← once "fields" known.fields (list (record FieldDecl.format)) d }
    | "methods",      d =>
      return { known with
        methods := ← once "methods" known.methods (list (record MethodDecl.format)) d }
    | "constructors", d =>
      return { known with
        constructors :=
          ← once "constructors" known.constructors (list (record constructorFormat)) d }
    | _,              d => ignored known d
  finish known := return ⟨← required "fqn" known.name, known.decl⟩
  fields := do
    let name ← nextField 0 "struct TypeEntry with 7 elements" string
    let known : PartialEntry := {
      kind := ← nextField? TypeKind.decode
      superclass := ← nextField? (option string)
      interfaces := ← nextField? (list string)
      fields := ← nextField? (list (record FieldDecl.format))
      methods := ← nextField? (list (record MethodDecl.format))
      constructors := ← nextField? (list (record constructorFormat)) }
    return ⟨name, known.decl⟩

def TypeEntry.decode : Decoder TypeEntry :=
  record TypeEntry.format

def StaticIndex.fileFormat : RecordFormat (Option (List TypeEntry)) (List TypeEntry) where
  expected := "struct IndexFile"
  start := none
  member known
    | "types", d => once "types" known (list TypeEntry.decode) d
    | _,       d => ignored known d
  finish known := return known.getD []
  fields := return (← nextField? (list TypeEntry.decode)).getD []

end Reading

def TypeEntry.ofDocument (document : Json.Document) : Except ReadError TypeEntry :=
  document.decode TypeEntry.decode

def TypeEntry.ofJson (text : String) : Except ReadError TypeEntry :=
  ofDocument (.ofText text)

/-- The index of an index file. Of entries of one name the last counts. -/
def StaticIndex.ofDocument (document : Json.Document) : Except ReadError StaticIndex :=
  (document.decode (Json.Decode.record StaticIndex.fileFormat)).map .ofEntries

def StaticIndex.ofJson (text : String) : Except ReadError StaticIndex :=
  ofDocument (.ofText text)

/-! ## Writing -/

def ErasedType.toJson (t : ErasedType) : Json :=
  .string t.descriptor

def parametersToJson (ts : List ErasedType) : Json :=
  .array (ts.map ErasedType.toJson)

def FieldDecl.toJson (f : FieldDecl) : Json :=
  .object [("name", .string f.name), ("type", f.type.toJson)]

def MethodDecl.toJson (m : MethodDecl) : Json :=
  .object [("name", .string m.name), ("params", parametersToJson m.parameters)]

def constructorToJson (parameters : List ErasedType) : Json :=
  .object [("params", parametersToJson parameters)]

/-- An entry with all its fields. -/
def TypeEntry.toJson (e : TypeEntry) : Json :=
  .object [
    ("fqn", .string e.name),
    ("kind", .string e.decl.kind.keyword),
    ("superclass", e.decl.superclass.elim .null .string),
    ("interfaces", .array (e.decl.interfaces.map .string)),
    ("fields", .array (e.decl.fields.map FieldDecl.toJson)),
    ("methods", .array (e.decl.methods.map MethodDecl.toJson)),
    ("constructors", .array (e.decl.constructors.map constructorToJson))]

end Jsni
