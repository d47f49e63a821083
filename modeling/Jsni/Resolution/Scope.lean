import Jsni.Index.Basic
import Jsni.Name
import Jsni.Resolution.Context

/-!
# Scopes of type names

A class name is looked up scope by scope. Each scope turns it into the fully qualified names that
it might stand for there, and the first scope decides that has a name which the index answers for.
-/

namespace Jsni

inductive Scope where
  /-- Member types of the enclosing types. -/
  | memberType
  /-- Single-type imports, then imports on demand. -/
  | imported
  /-- The name is already fully qualified. -/
  | qualified
  /-- Types of the same package. -/
  | samePackage
  /-- The package `java.lang`, which every source imports. -/
  | builtin
deriving DecidableEq, Repr

namespace Scope

/-- All scopes, in the order they are searched. -/
def all : List Scope :=
  [memberType, imported, qualified, samePackage, builtin]

/-- Whether a single-type import brings in a type of the given simple name. -/
def importsAs (imported simpleName : String) : Bool :=
  imported = simpleName || ('.' :: simpleName.toList).isSuffixOf imported.toList

/-- The fully qualified names that a class name might stand for in a scope. -/
def candidates (context : ImportContext) (n : TypeName) : Scope → List String
  | memberType  => context.enclosing.map fun e => e ++ "." ++ n.head ++ n.tail
  | imported    =>
    (context.imports.filter (importsAs · n.head)).map (· ++ n.tail)
      ++ context.onDemand.map fun p => p ++ "." ++ n.head ++ n.tail
  | qualified   => if n.isQualified then [n.full] else []
  | samePackage => [qualify context.package n.head ++ n.tail]
  | builtin     => ["java.lang." ++ n.head ++ n.tail]

end Scope

namespace TypeIndex

/-- What a class name means in one scope. -/
def resolveIn (idx : TypeIndex) (context : ImportContext) (n : TypeName) (scope : Scope) :
    Except IndexError (Option JavaType) :=
  idx.findFirst (scope.candidates context n)

/-- What a class name means in the first of some scopes that knows it. A scope whose names the index
fails on ends the search as well. -/
def resolveAlong (idx : TypeIndex) (context : ImportContext) (n : TypeName) :
    List Scope → Except IndexError (Option JavaType)
  | []              => .ok none
  | scope :: scopes =>
    match idx.resolveIn context n scope with
    | .ok none => idx.resolveAlong context n scopes
    | answer   => answer

theorem resolveAlong_eq_findFirst (idx : TypeIndex) (context : ImportContext) (n : TypeName)
    (scopes : List Scope) :
    idx.resolveAlong context n scopes
      = idx.findFirst (scopes.flatMap (·.candidates context n)) := by
  induction scopes with
  | nil => rfl
  | cons scope scopes ih =>
    rw [resolveAlong, ih, List.flatMap_cons, findFirst_append]
    rfl

/-- What a class name means in the first scope that knows it. -/
def resolveName (idx : TypeIndex) (context : ImportContext) (n : TypeName) :
    Except IndexError (Option JavaType) :=
  idx.resolveAlong context n Scope.all

/-- The type that a class name in a reference stands for. A name with `$` that names no nested type
is tried once more with its `$` kept, since `$` may also be part of a name. -/
def resolveType (idx : TypeIndex) (context : ImportContext) (className : String) :
    Except IndexError (Option JavaType) := do
  let n := TypeName.ofBinary className
  if n.head = "" then
    return none
  match ← idx.resolveName context n with
  | some t => return some t
  | none   =>
    if className.toList.contains '$' then idx.resolveName context (.verbatim className)
    else return none

end TypeIndex

end Jsni
