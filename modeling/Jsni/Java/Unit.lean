import Jsni.Java.Block
import Jsni.Java.Body
import Jsni.Resolution.Context
import Jsni.Text.Raw

/-!
# Source units

A source file with its package, its imports and its blocks.
-/

namespace Jsni

open Text

structure SourceUnit where
  path : Path
  source : String
  package : Option String := none
  /-- Imports as written after `import`, those on demand with their `.*`. -/
  imports : List String := []
  blocks : List Block := []
deriving DecidableEq, Repr, Inhabited

namespace SourceUnit

/-- What class names mean in the references of a block. -/
def context (u : SourceUnit) (b : Block) : ImportContext :=
  .ofImports u.package u.imports b.enclosing

end SourceUnit

namespace Java

/-- The lexemes from the first word through the last. -/
def nameLexemes (ls : List Lexeme) : List Lexeme :=
  let fromFirst := ls.dropWhile (·.kind ≠ .word)
  (fromFirst.reverse.dropWhile (·.kind ≠ .word)).reverse

/-- The text of a declared name, without white space. -/
def nameText (ls : List Lexeme) : String :=
  .ofList (squeeze (sourceText (nameLexemes ls)))

/-- The lexemes after the first one that is the word. -/
def after (word : String) (ls : List Lexeme) : List Lexeme :=
  (ls.dropWhile (! ·.isWord word)).drop 1

/-- What a declaration of a package or an import says after its keyword. A package may have
annotations, which stand before it. -/
def Node.afterKeyword : Node → List Lexeme
  | branch .packageDeclaration children => after "package" (lexemesOf children)
  | branch .importDeclaration children  => after "import" (lexemesOf children)
  | _                                   => []

/-- The package that a node declares. -/
def Node.package? (n : Node) : Option String :=
  match n with
  | branch .packageDeclaration _ => some (nameText n.afterKeyword)
  | _                            => none

/-- The import that a node declares, unless it is a static one. -/
def Node.import? (n : Node) : Option String :=
  match n with
  | branch .importDeclaration _ =>
    let parts := n.afterKeyword.filter (! ·.isComment)
    if parts.head?.any (·.isWord "static") then none
    else some (nameText n.afterKeyword ++ if parts.any (·.isMark '*') then ".*" else "")
  | _                           => none

def Node.children : Node → List Node
  | leaf _            => []
  | branch _ children => children

/-- The package of a source: the last one declared. -/
def package? (root : Node) : Option String :=
  (root.children.filterMap Node.package?).getLast?

/-- The imports of a source, in order. -/
def imports (root : Node) : List String :=
  root.children.filterMap Node.import?

end Java

/-- How sources are parsed. -/
abbrev Java.Parser :=
  String → Java.Node

/-- The source unit of a source with the given tree. -/
def SourceUnit.ofTree (path : Path) (source : String) (root : Java.Node) : SourceUnit :=
  let package := Java.package? root
  { path, source, package
    imports := Java.imports root
    blocks := root.blocks package [] none none }

/-- The source unit of a Java source. -/
def SourceUnit.ofSource (path : Path) (source : String) : SourceUnit :=
  ofTree path source (Java.parse source)

end Jsni
