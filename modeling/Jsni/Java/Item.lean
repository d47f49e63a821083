import Jsni.Java.Tree

/-!
# Items

An item is a lexeme, or a bracketed group whose inside is read already. What a group's brackets
stand for shows only from what is around them, so its contents come in one reading per use.
-/

namespace Jsni.Java

/-- The readings of what stands between two brackets. -/
structure Contents where
  /-- Statements, expressions, parameters, arguments. -/
  plain : List Node
  /-- Members of a class, an interface or a record. -/
  classBody : List Node
  /-- Constants, then members. -/
  enumBody : List Node
  /-- Elements and members of an annotation type. -/
  annotationBody : List Node
deriving Repr, Inhabited

inductive BodyKind where
  | classBody
  | enumBody
  | annotationBody
deriving DecidableEq, Repr

def Contents.body (c : Contents) : BodyKind → List Node
  | .classBody      => c.classBody
  | .enumBody       => c.enumBody
  | .annotationBody => c.annotationBody

inductive Item where
  | lexeme (l : Lexeme)
  | group (opener : Lexeme) (contents : Contents) (closer : Option Lexeme)
  /-- An annotation with its arguments. -/
  | annotated (parts : List Node)
deriving Repr, Inhabited

namespace Item

def isComment : Item → Bool
  | lexeme l => l.isComment
  | _        => false

def word? : Item → Option String
  | lexeme l => if l.kind = .word then some (.ofList l.text) else none
  | _        => none

def isWord (x : Item) (word : String) : Bool :=
  x.word? = some word

def isMark (x : Item) (c : Char) : Bool :=
  match x with
  | lexeme l => l.isMark c
  | _        => false

/-- Whether the item is a group with the given opening bracket. -/
def isGroup (x : Item) (opening : Char) : Bool :=
  match x with
  | group o _ _ => o.isMark opening
  | _           => false

def isAnnotated : Item → Bool
  | annotated _  => true
  | _            => false

/-- A group between its brackets, with its contents read one way or another. -/
def bracketed (opener : Lexeme) (inside : List Node) (closer : Option Lexeme) : Node :=
  .branch .other (.leaf opener :: inside ++ (closer.map Node.leaf).toList)

def node : Item → Node
  | lexeme l                      => .leaf l
  | group opener contents closer  => bracketed opener contents.plain closer
  | annotated parts               => .branch .other parts

/-- The item as the body of a type. -/
def bodyNode (kind : BodyKind) : Item → Node
  | group opener contents closer => bracketed opener (contents.body kind) closer
  | x                            => x.node

end Item

def nodes (items : List Item) : List Node :=
  items.map Item.node

/-- The items as one branch, with comments at either end left outside. -/
def wrap (items : List Item) : List Node :=
  let leading := items.takeWhile Item.isComment
  let rest := items.dropWhile Item.isComment
  let trailing := (rest.reverse.takeWhile Item.isComment).reverse
  let core := (rest.reverse.dropWhile Item.isComment).reverse
  nodes leading ++ (if core = [] then [] else [.branch .other (nodes core)]) ++ nodes trailing

/-! ## Annotations -/

/-- How many of the items after an `@` belong to its annotation: a dotted name and, if they follow,
arguments. `read` items are behind, `kept` of them known to belong. -/
def annotationLength (expectName : Bool) (read kept : Nat) : List Item → Nat
  | []      => kept
  | x :: xs =>
    if x.isComment then annotationLength expectName (read + 1) kept xs
    else if expectName then
      if x.word?.isSome && ! x.isWord "interface" then
        annotationLength false (read + 1) (read + 1) xs
      else kept
    else if x.isMark '.' then annotationLength true (read + 1) kept xs
    else if x.isGroup '(' then read + 1
    else kept

/-- Make one item of each annotation. -/
def packAnnotations (items : List Item) : List Item :=
  match items with
  | []      => []
  | x :: xs =>
    if x.isMark '@' then
      match annotationLength true 0 0 xs with
      | 0     => x :: packAnnotations xs
      | n + 1 => .annotated (nodes (x :: xs.take (n + 1))) :: packAnnotations (xs.drop (n + 1))
    else x :: packAnnotations xs
termination_by items.length
decreasing_by
  all_goals simp only [List.length_cons, List.length_drop]
  all_goals omega

end Jsni.Java
