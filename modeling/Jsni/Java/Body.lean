import Jsni.Java.Statement

/-!
# Bodies of types

Splits the body of a class, an enum or an annotation type into its members and tells methods and
constructors from all others. Comments between members stand on their own; those within a member
belong to the part of it that they are in.
-/

namespace Jsni.Java

/-! ## Modifiers -/

def Item.isModifier (x : Item) : Bool :=
  x.isAnnotated || modifierWords.any x.isWord

/-- How many items belong to the modifiers at the front. Comments belong to them only between two
modifiers. `read` items are behind, `kept` of them known to belong. -/
def modifiersLength (read kept : Nat) : List Item → Nat
  | []                => kept
  | x :: xs           =>
    if x.isComment then modifiersLength (read + 1) kept xs
    else if x.isModifier then modifiersLength (read + 1) (read + 1) xs
    else if x.isWord "non" then
      match xs with
      | y :: z :: xs =>
        if y.isMark '-' && z.isWord "sealed" then modifiersLength (read + 3) (read + 3) xs
        else kept
      | _            => kept
    else kept

/-! ## Methods -/

/-- The items of a method or constructor declaration after its modifiers. -/
structure MethodShape where
  /-- Type parameters and type, none of both for a plain constructor. -/
  head : List Item
  name : Item
  /-- Comments between the name and the parameters. -/
  between : List Item
  parameters : Item
  /-- Dimensions, thrown types, and the body or the semicolon. -/
  rest : List Item

/-- The first item that tells a method from a field, an initializer or a type. -/
def Item.isDecisive (x : Item) : Bool :=
  x.isGroup '(' || x.isGroup '\x7b' || x.isMark '=' || x.isMark ';'

def methodShape? (items : List Item) : Option MethodShape :=
  if nextWord? items = some "record" && continuesRecord ((skipComments items).drop 1) then none
  else
    let before := items.takeWhile (! ·.isDecisive)
    match items.dropWhile (! ·.isDecisive) with
    | []                 => none
    | parameters :: rest =>
      if ! parameters.isGroup '(' then none
      else
        let between := (before.reverse.takeWhile Item.isComment).reverse
        match before.reverse.dropWhile Item.isComment with
        | []           => none
        | name :: head =>
          if name.word?.isSome then some ⟨head.reverse, name, between, parameters, rest⟩
          else none

/-- How many items there are through the `>` that closes all open angle brackets. -/
def anglesLength (depth : Nat) : List Item → Nat
  | []      => 0
  | x :: xs =>
    if x.isMark '<' then anglesLength (depth + 1) xs + 1
    else if x.isMark '>' then
      if depth ≤ 1 then 1 else anglesLength (depth - 1) xs + 1
    else anglesLength depth xs + 1

/-- Annotations and comments, then the type as one branch. -/
def typeNodes (items : List Item) : List Node :=
  nodes (items.takeWhile fun x => x.isComment || x.isAnnotated)
    ++ wrap (items.dropWhile fun x => x.isComment || x.isAnnotated)

/-- Type parameters as one branch, then the type. -/
def headNodes (items : List Item) : List Node :=
  let comments := items.takeWhile Item.isComment
  let rest := items.dropWhile Item.isComment
  nodes comments ++
    if rest.head?.any (·.isMark '<') then
      let n := anglesLength 0 rest
      wrap (rest.take n) ++ typeNodes (rest.drop n)
    else typeNodes rest

/-- The dimensions as one branch, then the thrown types, then the end of the declaration. -/
def tailNodes (items : List Item) : List Node :=
  let ends (x : Item) : Bool := x.isMark ';' || x.isGroup '\x7b'
  let middle := items.takeWhile (! ends ·)
  wrap (middle.takeWhile (! ·.isWord "throws"))
    ++ wrap (middle.dropWhile (! ·.isWord "throws"))
    ++ nodes (items.dropWhile (! ends ·))

def MethodShape.nodes (m : MethodShape) : List Node :=
  headNodes m.head ++ m.name.node :: Java.nodes m.between ++ m.parameters.node :: tailNodes m.rest

/-! ## Members -/

/-- A member, from its first modifier through its semicolon or body. -/
def member (items : List Item) : Node :=
  let n := modifiersLength 0 0 items
  let modifiers := items.take n
  let rest := items.drop n
  let modifierNodes := if modifiers = [] then [] else [.branch .modifiers (nodes modifiers)]
  match methodShape? rest with
  | some shape =>
    .branch (.methodDeclaration (shape.name.word?.getD "")) (modifierNodes ++ shape.nodes)
  | none       => .branch .other (modifierNodes ++ statements rest)

/-- Read members. `pending` holds the items of the current one, back to front; `assigned` says that
it has an initializer, in which braces do not end it. -/
def readMembers (pending : List Item) (assigned : Bool) : List Item → List Node
  | []      => nodes pending.reverse
  | x :: xs =>
    if pending = [] && (x.isComment || x.isMark ';') then x.node :: readMembers [] false xs
    else if x.isMark ';' || (x.isGroup '\x7b' && ! assigned) then
      member (x :: pending).reverse :: readMembers [] false xs
    else readMembers (x :: pending) (assigned || x.isMark '=') xs

def classBody (items : List Item) : List Node :=
  readMembers [] false items

/-- Constants, of which some have bodies; after a semicolon, members as one branch. Comments at the
end belong to no member. -/
def enumBody (items : List Item) : List Node :=
  let constants := items.takeWhile (! ·.isMark ';')
  let rest := items.dropWhile (! ·.isMark ';')
  let trailing := (rest.reverse.takeWhile Item.isComment).reverse
  let core := (rest.reverse.dropWhile Item.isComment).reverse
  constants.map (fun x => if x.isGroup '\x7b' then x.bodyNode .classBody else x.node)
    ++ (if core = [] then [] else [.branch .other (classBody core)])
    ++ nodes trailing

/-- The elements of an annotation type look like methods but are none. -/
def demote : Node → Node
  | .branch (.methodDeclaration _) children => .branch .other children
  | n                                       => n

def annotationBody (items : List Item) : List Node :=
  (classBody items).map demote

/-! ## Brackets -/

def Contents.ofItems (items : List Item) : Contents where
  plain := statements items
  classBody := Java.classBody items
  enumBody := Java.enumBody items
  annotationBody := Java.annotationBody items

/-- A bracket that is still open, with the items after it, back to front. -/
structure OpenBracket where
  opener : Lexeme
  items : List Item

/-- The brackets still open, innermost first, and the items outside them all, back to front. -/
structure Grouping where
  brackets : List OpenBracket
  outside : List Item

namespace Grouping

def add (g : Grouping) (x : Item) : Grouping :=
  match g.brackets with
  | []      => { g with outside := x :: g.outside }
  | b :: bs => { g with brackets := { b with items := x :: b.items } :: bs }

/-- Make an item of the innermost open bracket. -/
def close (g : Grouping) (closer : Option Lexeme) : Grouping :=
  match g.brackets with
  | []      => { g with outside := closer.toList.map .lexeme ++ g.outside }
  | b :: bs =>
    let contents := Contents.ofItems (packAnnotations b.items.reverse)
    ({ g with brackets := bs } : Grouping).add (.group b.opener contents closer)

def step (g : Grouping) (l : Lexeme) : Grouping :=
  if l.isMark '(' || l.isMark '[' || l.isMark '\x7b' then
    { g with brackets := ⟨l, []⟩ :: g.brackets }
  else if l.isMark ')' || l.isMark ']' || l.isMark '\x7d' then g.close (some l)
  else g.add (.lexeme l)

/-- The items outside all brackets, once those still open are taken to end here. -/
def items (g : Grouping) : List Item :=
  packAnnotations (g.brackets.foldl (fun g _ => g.close none) g).outside.reverse

end Grouping

/-- The tree of a source. -/
def parse (source : String) : Node :=
  let grouping := (lexemes source).foldl Grouping.step ⟨[], []⟩
  .branch .other (statements grouping.items)

end Jsni.Java
