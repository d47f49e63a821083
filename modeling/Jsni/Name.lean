/-!
# Names

Fully qualified names have dots between packages and between nested types; binary names have `$`
between nested types. A member goes by its type's name, `#` and its own name.
-/

namespace Jsni

/-! ## Members -/

def memberKey (typeName member : String) : String :=
  typeName ++ "#" ++ member

/-- The parts before and after the last occurrence of a separator. -/
def splitAtLast (separator : Char) : List Char → Option (List Char × List Char)
  | []      => none
  | c :: cs =>
    match splitAtLast separator cs with
    | some (before, after) => some (c :: before, after)
    | none                 => if c = separator then some ([], cs) else none

/-- The type and the member of a member key. -/
def splitMemberKey? (key : String) : Option (String × String) :=
  (splitAtLast '#' key.toList).map fun (typeName, member) =>
    (String.ofList typeName, String.ofList member)

/-- The type of a member key, or the whole text if it is none. -/
def typeOfMemberKey (key : String) : String :=
  match splitMemberKey? key with
  | some (typeName, _) => typeName
  | none               => key

/-! ## Types -/

/-- A name within a package. The default package has no name, or an empty one. -/
def qualify (package : Option String) (name : String) : String :=
  match package with
  | none   => name
  | some p => if p = "" then name else p ++ "." ++ name

/-- The source spelling of a binary name. -/
def sourceName (name : String) : String :=
  String.ofList (name.toList.map fun c => if c = '$' then '.' else c)

/-- A class name as a reference writes it, with dots between nested types. -/
structure TypeName where
  full : String
deriving DecidableEq, Repr

namespace TypeName

/-- Read `$` as the separator of nested types. -/
def ofBinary (raw : String) : TypeName :=
  ⟨sourceName raw⟩

/-- Keep `$` as a part of the name. -/
def verbatim (raw : String) : TypeName :=
  ⟨raw⟩

/-- The first segment. -/
def head (n : TypeName) : String :=
  String.ofList (n.full.toList.takeWhile (· ≠ '.'))

/-- All after the first segment, with its dot. -/
def tail (n : TypeName) : String :=
  String.ofList (n.full.toList.dropWhile (· ≠ '.'))

def isQualified (n : TypeName) : Bool :=
  n.full.toList.contains '.'

theorem head_append_tail (n : TypeName) : n.head ++ n.tail = n.full := by
  rw [← String.toList_inj]
  simp [head, tail, List.takeWhile_append_dropWhile]

end TypeName

end Jsni
