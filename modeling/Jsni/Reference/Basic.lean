import Jsni.Name

/-!
# References into Java

A reference such as `@com.example.Widget::fire(I)` names a class and, unless it stops there, one of
its members. It remembers where it was found.
-/

namespace Jsni

inductive MemberKind where
  | method
  | field
  | constructor
  | classOnly
deriving DecidableEq, Repr, Inhabited

structure Reference where
  /-- Byte offset of the `@` in the source. -/
  offset : Nat
  /-- Length in bytes. -/
  length : Nat
  className : String
  /-- Empty if the reference names a class only. -/
  memberName : String
  kind : MemberKind
  /-- The text between the parentheses, as written. -/
  signature : String
  /-- The key of the method whose block holds the reference. -/
  owner : String
deriving DecidableEq, Repr, Inhabited

namespace Reference

def stop (r : Reference) : Nat :=
  r.offset + r.length

def ownerType (r : Reference) : String :=
  typeOfMemberKey r.owner

/-- The class name that stands for no class. -/
def nullName : String :=
  "null"

def isNull (r : Reference) : Bool :=
  r.className = nullName

def hasSignature (r : Reference) : Bool :=
  r.kind = .method || r.kind = .constructor

/-- The reference as it is written. -/
def text (r : Reference) : String :=
  "@" ++ r.className
    ++ (if r.kind = .classOnly then "" else "::" ++ r.memberName)
    ++ (if r.hasSignature then "(" ++ r.signature ++ ")" else "")

end Reference

end Jsni
