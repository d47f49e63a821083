import Jsni.Java.Item

/-!
# Statements and expressions

Reads a run of items in which types may be declared: a whole source, a block, arguments, the
initializer of a field. Type declarations are found by their keyword, anonymous classes by the body
after the arguments of `new`.
-/

namespace Jsni.Java

/-- What the items so far lead to expect. -/
inductive Expectation where
  /-- Nothing in particular; `previous` is the last lexeme other than a comment. -/
  | any (previous : List Char)
  /-- The body of a type declaration whose header has been read, back to front. -/
  | typeBody (kind : BodyKind) (name : String) (header : List Node)
  /-- The class to create, after `new`, within `angles` open angle brackets. -/
  | createdClass (angles : Nat)
  /-- The body of an anonymous class, after the arguments of `new`. -/
  | anonymousBody
  /-- The end of a package or import declaration read so far, back to front. -/
  | directive (role : Role) (start : List Node)

def skipComments (items : List Item) : List Item :=
  items.dropWhile Item.isComment

/-- The word that comes next. -/
def nextWord? (items : List Item) : Option String :=
  (skipComments items).head?.bind Item.word?

/-- Whether a name follows, and then the header of a record. -/
def continuesRecord (items : List Item) : Bool :=
  match skipComments items with
  | x :: xs =>
    x.word?.isSome &&
      match skipComments xs with
      | y :: _ => y.isGroup '(' || y.isMark '<'
      | []     => false
  | []      => false

def modifierWords : List String :=
  ["public", "protected", "private", "abstract", "static", "final", "strictfp", "default",
    "synchronized", "native", "transient", "volatile", "sealed"]

/-- Whether a type can end with the lexeme, so that a word after it is the name of a variable. -/
def endsType (text : List Char) : Bool :=
  text = ['>'] || text = [']']
    || (text.head?.any isWordChar && modifierWords.all (text ≠ ·.toList))

/-- The keyword that declares a type here, by the kind of body that it calls for. -/
def declares? (previous : List Char) (x : Item) (following : List Item) : Option BodyKind :=
  if previous = ['.'] then none
  else if x.isWord "class" then some .classBody
  else if x.isWord "interface" then
    some (if previous = ['@'] then .annotationBody else .classBody)
  else if x.isWord "enum" then some .enumBody
  else if x.isWord "record" && ! endsType previous && continuesRecord following then
    some .classBody
  else none

/-- What to expect after an item that no other expectation claims. -/
def expectAfter (previous : List Char) (x : Item) (following : List Item) :
    Option Expectation :=
  if let some kind := declares? previous x following then
    some (.typeBody kind ((nextWord? following).getD "") [x.node])
  else if x.isWord "new" then some (.createdClass 0)
  else if x.isWord "package" then some (.directive .packageDeclaration [x.node])
  else if x.isWord "import" then some (.directive .importDeclaration [x.node])
  else none

def lastText (previous : List Char) : Item → List Char
  | .lexeme l         => if l.isComment then previous else l.text
  | .group _ _ closer => (closer.map (·.text)).getD []
  | .annotated _      => []

/-- Read an item where nothing in particular is expected: the nodes that are finished, and what to
expect next. -/
def readAny (previous : List Char) (x : Item) (following : List Item) :
    List Node × Expectation :=
  match expectAfter previous x following with
  | some (.typeBody kind name header) => ([], .typeBody kind name header)
  | some (.directive role start)      => ([], .directive role start)
  | some e                            => ([x.node], e)
  | none                              => ([x.node], .any (lastText previous x))

/-- Read an item against what is expected. -/
def readItem (e : Expectation) (x : Item) (following : List Item) : List Node × Expectation :=
  match e with
  | .any previous => readAny previous x following
  | .typeBody kind name header =>
    if x.isGroup '\x7b' then
      ([.branch (.typeDeclaration name) (header.reverse ++ [x.bodyNode kind])], .any [])
    else ([], .typeBody kind name (x.node :: header))
  | .createdClass angles =>
    if x.isMark '<' then ([x.node], .createdClass (angles + 1))
    else if x.isMark '>' then ([x.node], .createdClass (angles - 1))
    else if 0 < angles || x.isComment || x.word?.isSome || x.isMark '.' || x.isAnnotated then
      ([x.node], .createdClass angles)
    else if x.isGroup '(' then ([x.node], .anonymousBody)
    else readAny [] x following
  | .anonymousBody =>
    if x.isComment then ([x.node], .anonymousBody)
    else if x.isGroup '\x7b' then ([x.bodyNode .classBody], .any [])
    else readAny [] x following
  | .directive role start =>
    if x.isMark ';' then ([.branch role (start.reverse ++ [x.node])], .any [])
    else ([], .directive role (x.node :: start))

/-- The nodes still open when the items end. -/
def Expectation.unfinished : Expectation → List Node
  | typeBody _ _ header => header.reverse
  | directive _ start   => start.reverse
  | _                   => []

def readStatements (e : Expectation) : List Item → List Node
  | []      => e.unfinished
  | x :: xs =>
    let (done, next) := readItem e x xs
    done ++ readStatements next xs

/-- The nodes of a run of statements or expressions. -/
def statements (items : List Item) : List Node :=
  readStatements (.any []) items

end Jsni.Java
