import Jsni.Erasure.Primitive

/-!
# Erased types

The types of parameters and fields once generic arguments are gone, with the printed form that
messages use.
-/

namespace Jsni

/-- An erased type. A class goes by its binary name with dots between packages, such as
`java.util.Map$Entry`. -/
inductive ErasedType where
  | primitive (p : Primitive)
  | named (name : String)
  | array (element : ErasedType)
deriving DecidableEq, Repr, Inhabited

namespace ErasedType

/-- The innermost element type. -/
def base : ErasedType → ErasedType
  | array element => element.base
  | t             => t

/-- The depth of the array. -/
def dims : ErasedType → Nat
  | array element => element.dims + 1
  | _             => 0

def displayChars : ErasedType → List Char
  | primitive p   => p.keyword.toList
  | named name    => name.toList
  | array element => element.displayChars ++ ['[', ']']

/-- The type in source spelling: `int`, `java.lang.String[]`. -/
def display (t : ErasedType) : String :=
  String.ofList t.displayChars

end ErasedType

end Jsni
