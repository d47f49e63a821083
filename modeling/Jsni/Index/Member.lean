import Jsni.Erasure.Descriptor

/-!
# Types and their members

What a type index says about the types it knows: their kind and the methods, constructors and
fields they declare.
-/

namespace Jsni

inductive TypeKind where
  | classKind
  | interfaceKind
  | enumKind
  | annotationKind
deriving DecidableEq, Repr, Inhabited

namespace TypeKind

def all : List TypeKind :=
  [classKind, interfaceKind, enumKind, annotationKind]

def keyword : TypeKind → String
  | classKind      => "class"
  | interfaceKind  => "interface"
  | enumKind       => "enum"
  | annotationKind => "annotation"

def ofKeyword? (keyword : String) : Option TypeKind :=
  all.find? (·.keyword == keyword)

@[simp] theorem ofKeyword?_keyword (k : TypeKind) : ofKeyword? k.keyword = some k := by
  cases k <;> rfl

end TypeKind

/-- A type known to an index, under its fully qualified name with dots throughout. -/
structure JavaType where
  name : String
  kind : TypeKind
deriving DecidableEq, Repr, Inhabited

namespace JavaType

/-- The part of the name after its last dot. -/
def simpleName (t : JavaType) : String :=
  String.ofList (t.name.toList.reverse.takeWhile (· ≠ '.')).reverse

/-- Annotations are interfaces too. -/
def isInterface (t : JavaType) : Bool :=
  t.kind = .interfaceKind || t.kind = .annotationKind

/-- The root of the class hierarchy. -/
def objectName : String :=
  "java.lang.Object"

end JavaType

/-- A method, or a constructor under the name `new`, with the type that declares it. -/
structure Method where
  name : String
  declaringType : String
  parameters : List ErasedType
deriving DecidableEq, Repr, Inhabited

namespace Method

def constructorName : String :=
  "new"

def constructor (declaringType : String) (parameters : List ErasedType) : Method :=
  ⟨constructorName, declaringType, parameters⟩

def isConstructor (m : Method) : Bool :=
  m.name = constructorName

/-- The parameter descriptor, as references write it between parentheses. -/
def descriptor (m : Method) : String :=
  descriptorOf m.parameters

end Method

structure Field where
  name : String
  declaringType : String
  type : ErasedType
deriving DecidableEq, Repr, Inhabited

end Jsni
