import Jsni.Name
import Jsni.Java.Tree

/-!
# Blocks

A block is a comment `/*-{ ... }-*/` that gives a native method its body. It belongs to the method
that it stands in, or else to the method right before it.
-/

namespace Jsni

open Text

/-- A block with the method it belongs to. -/
structure Block where
  declaringType : String
  method : String
  isNative : Bool
  /-- The declaring type and the types around it, innermost first. -/
  enclosing : List String
  /-- Byte offset and length of the whole comment. -/
  offset : Nat
  length : Nat
  body : String
  bodyOffset : Nat
  /-- Whether the comment ends as a block does. -/
  terminated : Bool
deriving DecidableEq, Repr, Inhabited

namespace Block

def opening : List Char :=
  ['/', '*', '-', '\x7b']

def closing : List Char :=
  ['\x7d', '-', '*', '/']

/-- The key of the method, by which the references of the block know it. -/
def owner (b : Block) : String :=
  memberKey b.declaringType b.method

end Block

namespace Java

def Lexeme.isBlock (l : Lexeme) : Bool :=
  l.kind = .blockComment && Block.opening.isPrefixOf l.text

/-- The part of a block after its opening, and whether it ends with the closing, which then does
not count. -/
def blockBody (text : List Char) : List Char × Bool :=
  let inside := text.drop Block.opening.length
  if Block.closing.isSuffixOf inside then
    (inside.take (inside.length - Block.closing.length), true)
  else (inside, false)

/-- What a block needs to know of a method declaration. -/
structure MethodHeader where
  name : String
  isNative : Bool
deriving DecidableEq, Repr

/-- A method is native if the text of its modifiers has the word. -/
def nativeModifiers (children : List Node) : Bool :=
  match children.find? Node.isModifiers with
  | none           => false
  | some modifiers => (words modifiers.text).any (· = "native".toList)

def Node.methodHeader? : Node → Option MethodHeader
  | branch (.methodDeclaration name) children => some ⟨name, nativeModifiers children⟩
  | _                                         => none

/-- The fully qualified names of nested types, innermost first, from their simple names, innermost
first. -/
def qualifiedNames (package : Option String) : List String → List String
  | []            => []
  | name :: outer =>
    match qualifiedNames package outer with
    | []               => [qualify package name]
    | enclosing :: all => qualify (some enclosing) name :: enclosing :: all

/-- The block that a comment is, if it belongs to a method of a type. -/
def blockOf? (package : Option String) (types : List String) (method : Option MethodHeader)
    (l : Lexeme) : Option Block := do
  let m ← method
  let enclosing := qualifiedNames package types
  let declaringType ← enclosing.head?
  let (body, terminated) := blockBody l.text
  if l.isBlock then
    return {
      declaringType, method := m.name, isNative := m.isNative, enclosing
      offset := l.offset
      length := byteLength l.text
      body := .ofList body
      bodyOffset := l.offset + byteLength Block.opening
      terminated }
  else none

mutual

/-- The blocks of a tree, in order, where `types` are the names of the types around it, innermost
first, `parent` is the method whose direct part it is and `before` the method right before it. -/
def Node.blocks (package : Option String) (types : List String)
    (parent before : Option MethodHeader) : Node → List Block
  | .leaf l => (blockOf? package types (parent <|> before) l).toList
  | .branch role children =>
    let types :=
      match role with
      | .typeDeclaration name => name :: types
      | _                     => types
    let parent := (Node.branch role children).methodHeader?
    blocksOf package types parent none children

/-- The blocks of the parts of a node. -/
def blocksOf (package : Option String) (types : List String)
    (parent before : Option MethodHeader) : List Node → List Block
  | []      => []
  | n :: ns =>
    let after := if n.isNamed then n.methodHeader? else before
    n.blocks package types parent before ++ blocksOf package types parent after ns

end

end Java

end Jsni
